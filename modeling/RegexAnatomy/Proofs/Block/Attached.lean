import RegexAnatomy.Proofs.Block.Faults
import RegexAnatomy.Proofs.Block.Partition
import RegexAnatomy.Proofs.Options.Replay

/-! Which block a quantifier belongs to. Behind a token that can be repeated a
quantifier is looked for across trivia, and literal text ends where one follows. So
the cutting stops at a quantifier only where there is nothing to repeat; the anchors
`^` and `$` are the exception, as they are cut off without a look at what follows. -/

namespace RegexAnatomy

def Token.IsBareAnchor (token : Token) : Prop := token = .anchor ['^'] ∨ token = .anchor ['$']

structure Block.TakesQuantifier (b : Block) : Prop where
  notLayout : b.token ≠ .layout
  notAlone : ¬ b.token.StandsAlone
  notBareAnchor : ¬ b.token.IsBareAnchor

def Block.tailText (b : Block) : Text :=
  (b.repetition.map Repetition.text).getD [] ++ triviaText b.trivia

section Lookahead

variable {free : Bool} {t : Text}

theorem splitTrivia_takeTrivia (free : Bool) (t : Text) :
    splitTrivia free (takeTrivia free t).2 = none := by
  fun_induction takeTrivia free t with
  | case1 t h => exact h
  | case2 t item rest h hl more after he ih =>
    rw [he] at ih
    exact ih

/-- Trivia that are passed do not change whether a quantifier follows. -/
theorem quantifierFollows_takeTrivia (free : Bool) (t : Text) :
    quantifierFollows free (takeTrivia free t).2 = quantifierFollows free t :=
  quantifierFollows_of_token (splitTrivia_takeTrivia free t)

theorem stop_takeUnits {stop : Text → Bool} (h : stop t = false) :
    stop (takeUnits free stop t).2 = false := by
  fun_induction takeUnits free stop t with
  | case1 => exact h
  | case2 => exact h
  | case3 t unit rest hu hl hs more after he ih =>
    rw [he] at ih
    exact ih (by simpa using hs)

theorem splitRepetition_isSome (free : Bool) (t : Text) :
    (splitRepetition free t).1.isSome = quantifierFollows free t := by
  simp only [splitRepetition, quantifierFollows, startsQuantifier]
  split
  next hq => rw [hq]; rfl
  next hq =>
    rw [hq]
    split <;> rfl

theorem readRepetition_isSome {repetition : Option Repetition} {items : List Trivia} {rest : Text}
    (h : readRepetition free t = .ok (repetition, items, rest)) :
    repetition.isSome = quantifierFollows free t := by
  obtain ⟨a, hs, -⟩ := splitRepetition_of_readRepetition h
  rw [← splitRepetition_isSome, hs]

/-- Where a block has no quantifier, all the trivia behind its token are its own. -/
theorem takeTrivia_of_readRepetition {items : List Trivia} {rest : Text}
    (h : readRepetition free t = .ok (none, items, rest)) : takeTrivia free t = (items, rest) := by
  simp only [readRepetition, bind_eq_ok] at h
  obtain ⟨⟨before, rest₁⟩, hb, h⟩ := h
  split at h
  next => cases h; exact (readTrivia_eq_ok.1 hb).1
  next =>
    obtain ⟨_, -, h⟩ := bind_eq_ok.1 h
    split at h <;> cases h

end Lookahead

section Leads

variable {free : Bool} {t : Text} {lead : Lead}

/-- A quantifier is looked for behind the token, or none follows it. -/
def Lead.Attaches (free : Bool) (lead : Lead) : Prop :=
  lead.repeatable ∨
    (∃ text, lead.token = .literal text) ∧ quantifierFollows free lead.rest = false

theorem readLiteral_attaches (h : readLiteral free t = .ok lead) : lead.Attaches free := by
  obtain ⟨unit, rest, -, ⟨-, rfl⟩ | ⟨hq, rfl⟩⟩ := readLiteral_eq_ok.1 h
  · exact .inl rfl
  · exact .inr ⟨⟨_, rfl⟩, stop_takeUnits hq⟩

theorem readEscape_attaches (h : readEscape free t = .ok lead) : lead.Attaches free := by
  cases behindBackslash_of_readEscape h with
  | literal hliteral => exact readLiteral_attaches hliteral
  | _ => exact .inl rfl

theorem readLead_attaches {ctx : Context} (h : readLead ctx t = .ok (some lead)) :
    lead.token.StandsAlone ∨ lead.token.IsBareAnchor ∨ lead.Attaches ctx.mode.freeSpacing := by
  cases atFront_of_readLead h with
  | construct hconstruct =>
    rcases readConstruct_cases hconstruct with ⟨_, ht⟩ | ⟨_, ht⟩ | ⟨ht, -⟩ <;>
      exact .inl (by rw [ht]; trivial)
  | paren | bar => exact .inl trivial
  | anchor hc => exact .inr (.inl (by rcases hc with rfl | rfl; exacts [.inl rfl, .inr rfl]))
  | close | charClass => exact .inr (.inr (.inl rfl))
  | escape hescape => exact .inr (.inr (readEscape_attaches hescape))
  | literal _ hliteral => exact .inr (.inr (readLiteral_attaches hliteral))

/-- Such a token takes the quantifier that follows it, and takes none where none follows. Behind a
token without one, none follows either. -/
theorem Lead.Attaches.readTail {repetition : Option Repetition} {items : List Trivia} {rest : Text}
    (ha : lead.Attaches free) (h : lead.readTail free = .ok (repetition, items, rest)) :
    repetition.isSome = quantifierFollows free lead.rest ∧
      (repetition = none → quantifierFollows free rest = false) := by
  unfold Lead.readTail at h
  split at h
  next hrepeatable =>
    have hsome := readRepetition_isSome h
    refine ⟨hsome, ?_⟩
    rintro rfl
    have hrest := quantifierFollows_takeTrivia free lead.rest
    rwa [takeTrivia_of_readRepetition h, ← hsome] at hrest
  next hrepeatable =>
    cases h
    obtain ⟨-, hnone⟩ := ha.resolve_left hrepeatable
    exact ⟨hnone.symm, fun _ => hnone⟩

end Leads

section Run

variable {s s₁ s' : Cursor} {b : Block} {bs : List Block}

theorem Cursor.next_attaches (h : s.next = .ok (some (b, s₁))) (hb : b.TakesQuantifier) :
    b.repetition.isSome = quantifierFollows s₁.mode.freeSpacing (b.tailText ++ s₁.unread) ∧
      (b.repetition = none → quantifierFollows s₁.mode.freeSpacing s₁.unread = false) := by
  obtain ⟨-, lead, htoken, hl, hr, hfront, -⟩ := Cursor.next_token h hb.notLayout
  have hmode : (s.note lead.token).mode = s₁.mode := (congrArg Front.mode hfront).symm
  have htail : b.tailText ++ s₁.unread = lead.rest := by
    rw [Block.tailText]
    exact Lead.readTail_append hr
  rw [htail]
  rw [hmode] at hr
  refine Lead.Attaches.readTail ?_ hr
  rcases readLead_attaches hl with halone | hanchor | hrepeatable | ⟨⟨text, hliteral⟩, hnone⟩
  · exact absurd (htoken ▸ halone) hb.notAlone
  · exact absurd (htoken ▸ hanchor) hb.notBareAnchor
  · exact .inl hrepeatable
  · -- literal text leaves the options as they are
    have hsame : s₁.mode = s.mode := by
      rw [← hmode, hliteral]
      rfl
    exact .inr ⟨⟨text, hliteral⟩, by rw [hsame]; exact hnone⟩

/-- Over blocks of trivia, whether a quantifier follows stays the same. -/
theorem Cursor.Cuts.quantifierFollows_eq (h : s.Cuts bs s') (hbs : ∀ b ∈ bs, b.token = .layout) :
    quantifierFollows s'.mode.freeSpacing s'.unread =
      quantifierFollows s.mode.freeSpacing s.unread := by
  induction h with
  | nil => rfl
  | @cons s s₁ s₂ b bs hn hs ih =>
    obtain ⟨hb, hbs⟩ := List.forall_mem_cons.1 hbs
    rw [ih hbs]
    rcases Cursor.next_cases hn with ⟨items, rest, ht, -, rfl, rfl⟩ |
      ⟨-, lead, _, _, _, hl, -, rfl, -⟩
    · have hrest := quantifierFollows_takeTrivia s.mode.freeSpacing s.unread
      rwa [(readTrivia_eq_ok.1 ht).1] at hrest
    · have htext : lead.token.text = [] := by rw [show lead.token = .layout from hb]; rfl
      exact absurd htext (readLead_covers hl).2

/-- The cutting stops at a quantifier only if one comes next. -/
theorem Cursor.quantifierFollows_of_dangling {position : Nat} {c : Char}
    (h : s.cut.stop = some (.malformed position (.danglingQuantifier c))) :
    quantifierFollows s.cut.last.mode.freeSpacing s.cut.last.unread := by
  obtain ⟨fault, hfault, hlocate⟩ := Cursor.exists_fault_of_cut h
  cases Cursor.next_metAt hfault with
  | misspelled hmisspells =>
    obtain ⟨-, -, hcause⟩ := hmisspells
    obtain ⟨-, rfl⟩ := PatternError.malformed.inj hlocate
    exact hcause.elim
  | dangling hq => exact quantifierFollows_of_startsQuantifier hq
  | unmatched => cases hlocate

/-- Under the options in effect behind it, a block has a quantifier where one follows its token. -/
theorem Cursor.Cuts.isSome_eq {pattern : Text} {before after : List Block}
    (h : Cursor.Cuts { unread := pattern } (before ++ b :: after) s') (hb : b.TakesQuantifier) :
    b.repetition.isSome = quantifierFollows ((replay (before ++ [b])).options .x)
      (b.tailText ++ (after.flatMap Block.text ++ s'.unread)) := by
  obtain ⟨s, hbefore, _ | ⟨hn, hrest⟩⟩ := Cursor.Cuts.append_iff.1 h
  have hreplays := ((Cursor.replays_start pattern).cuts hbefore).next hn
  rw [(Cursor.next_attaches hn hb).1, hreplays.mode, ← hrest.text]
  rfl

end Run

/-- Every quantifier belongs to the block that it follows, and the cutting stops at one only where
the block before it has nothing to repeat, is repeated already, or is `^` or `$`. -/
structure Cutting.Attaches (cutting : Cutting) : Prop where
  attached : ∀ before b after, cutting.blocks = before ++ b :: after → b.TakesQuantifier →
    (b.repetition.isSome ↔ quantifierFollows ((replay (before ++ [b])).options .x)
      (b.tailText ++ (after.flatMap Block.text ++ cutting.last.unread)))
  refused : ∀ position c, cutting.stop = some (.malformed position (.danglingQuantifier c)) →
    ∀ before b after, cutting.blocks = before ++ b :: after → b.token ≠ .layout →
      (∀ layout ∈ after, layout.token = .layout) →
        b.token.StandsAlone ∨ b.repetition.isSome ∨ b.token.IsBareAnchor

theorem cutPattern_attaches (pattern : Text) : (cutPattern pattern).Attaches := by
  have hcut := Cursor.cuts_cut { unread := pattern }
  refine ⟨fun before b after hsplit hb => ?_,
    fun position c hstop before b after hsplit hb hafter => ?_⟩
  · rw [cutPattern] at hsplit
    rw [hsplit] at hcut
    exact Bool.eq_iff_iff.1 (hcut.isSome_eq hb)
  · have hfollows := Cursor.quantifierFollows_of_dangling hstop
    rw [cutPattern] at hsplit
    rw [hsplit] at hcut
    obtain ⟨s, -, _ | ⟨hn, hrest⟩⟩ := Cursor.Cuts.append_iff.1 hcut
    rw [hrest.quantifierFollows_eq hafter] at hfollows
    by_contra hnone
    obtain ⟨halone, hrepetition, hanchor⟩ : ¬ b.token.StandsAlone ∧ b.repetition = none ∧
        ¬ b.token.IsBareAnchor := by
      simpa using hnone
    rw [(Cursor.next_attaches hn ⟨hb, halone, hanchor⟩).2 hrepetition] at hfollows
    cases hfollows

/-- A quantifier behind an anchor; behind `\A` it is no fault. -/
def repeatedCaretPattern : Text := "^*".toList

theorem repeatedCaretPattern_refused :
    (cutPattern repeatedCaretPattern).stop = some (.malformed 1 (.danglingQuantifier '*')) ∧
      (cutPattern repeatedCaretPattern).blocks = [⟨.anchor ['^'], ⟨0, 1⟩, none, []⟩] ∧
      ¬ Token.StandsAlone (.anchor ['^']) ∧
      (blocksOf "\\A*".toList).toOption.map (·.blocks.map (·.repetition.isSome)) =
        some [true] :=
  ⟨by decide +kernel, by decide +kernel, id, by decide +kernel⟩

end RegexAnatomy
