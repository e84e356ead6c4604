import RegexAnatomy.Proofs.Block.Attached

/-! How literal text is cut into blocks. A quantifier binds to a single unit, so a
literal block with a quantifier holds one unit; and a run of units ends only where
no unit stands or where a quantifier follows the next one, so two literal blocks
without quantifiers do not meet, unless one of them is an escape for a character
code, which is always a block of its own. -/

namespace RegexAnatomy

inductive IsLiteralUnit : Text → Prop
  | char {c : Char} (hc : c ≠ '\\') : IsLiteralUnit [c]
  | escape (c : Char) : IsLiteralUnit ['\\', c]

def IsLiteralUnits (t : Text) : Prop :=
  ∃ units : List Text, t = units.flatten ∧ ∀ unit ∈ units, IsLiteralUnit unit

section Leads

variable {free : Bool} {t unit rest : Text} {lead : Lead}

theorem isLiteralUnit_of_splitUnit (h : splitUnit free t = some (unit, rest)) :
    IsLiteralUnit unit := by
  rw [← (splitUnit_append h).1] at h
  rcases splitUnit_shape h with ⟨c, rfl⟩ | ⟨c, rfl, hc⟩
  · exact .escape c
  · exact .char hc

theorem UnitRun.isLiteralUnits {w : Text} (h : UnitRun free w) : IsLiteralUnits w := by
  induction h with
  | nil => exact ⟨[], rfl, by simp⟩
  | @cons unit w hu hw ih =>
    obtain ⟨units, rfl, hunits⟩ := ih
    exact ⟨unit :: units, rfl, List.forall_mem_cons.2 ⟨isLiteralUnit_of_splitUnit hu, hunits⟩⟩

theorem UnitRun.exists_last {w : Text} (h : UnitRun free w) (hne : w ≠ []) :
    ∃ start last, w = start ++ last ∧ UnitRun free start ∧
      splitUnit free (last ++ []) = some (last, []) := by
  induction h with
  | nil => exact absurd rfl hne
  | @cons unit w hu hw ih =>
    by_cases hnil : w = []
    · subst hnil
      exact ⟨[], unit, by simp, .nil, hu⟩
    · obtain ⟨start, last, rfl, hstart, hlast⟩ := ih hnil
      exact ⟨unit ++ start, last, by simp, .cons (splitUnit_again hu start) hstart, hlast⟩

/-- Where a run of literal text has ended, a unit that stands there is followed by a quantifier. -/
theorem quantifierFollows_of_end
    (h : readLiteral free (takeUnits free (quantifierFollows free) t).2 = .ok lead) :
    quantifierFollows free lead.rest := by
  obtain ⟨unit, rest, hu, ⟨hq, rfl⟩ | ⟨hq, -⟩⟩ := readLiteral_eq_ok.1 h
  · exact hq
  · have hend := takeUnits_again_nil free (quantifierFollows free) t
    rw [takeUnits_of_some hu, if_neg (by simp [hq])] at hend
    have hnil : unit ++ _ = [] := (Prod.mk.inj hend).1
    exact absurd (List.append_eq_nil_iff.1 hnil).1 (splitUnit_append hu).2

theorem readEscape_literal {text : Text} (h : readEscape free t = .ok lead)
    (ht : lead.token = .literal text) :
    IsCodeEscape text ∨ readLiteral free ('\\' :: t) = .ok lead := by
  cases behindBackslash_of_readEscape h with
  | code hc harg =>
    cases ht
    exact .inl (isCodeEscape_of_escapeArgument hc harg)
  | literal hliteral => exact .inr hliteral
  | _ => cases ht

/-- A literal token is an escape for a character code, or a run of units. -/
theorem readLead_literal {ctx : Context} {text : Text} (h : readLead ctx t = .ok (some lead))
    (ht : lead.token = .literal text) :
    IsCodeEscape text ∨ readLiteral ctx.mode.freeSpacing t = .ok lead := by
  cases atFront_of_readLead h with
  | construct hconstruct =>
    rcases readConstruct_cases hconstruct with ⟨_, hc⟩ | ⟨_, hc⟩ | ⟨hc, -⟩ <;>
      rw [hc] at ht <;> cases ht
  | escape hescape => exact readEscape_literal hescape ht
  | literal _ hliteral => exact .inr hliteral
  | _ => cases ht

/-- A numeric escape has digits behind its backslash, and whole units behind these. -/
def Token.HoldsUnits (token : Token) : Prop :=
  ∀ text, token = .numericEscape text → ∃ free digits tail,
    text = '\\' :: (digits ++ tail) ∧ digits ≠ [] ∧ (∀ c ∈ digits, c.isDigit) ∧
      UnitRun free tail ∧ ∀ c ∈ tail.head?, c.isDigit = false

theorem readLead_holdsUnits {ctx : Context} (h : readLead ctx t = .ok (some lead)) :
    lead.token.HoldsUnits := by
  intro text ht
  have nothing {free : Bool} {u : Text} (hliteral : readLiteral free u = .ok lead) : False := by
    obtain ⟨_, htoken, -⟩ := exists_run_of_readLiteral hliteral
    rw [htoken] at ht
    cases ht
  cases atFront_of_readLead h with
  | construct hconstruct =>
    rcases readConstruct_cases hconstruct with ⟨_, hc⟩ | ⟨_, hc⟩ | ⟨hc, -⟩ <;>
      rw [hc] at ht <;> cases ht
  | escape hescape =>
    cases behindBackslash_of_readEscape hescape with
    | @numeric c hc rest =>
      obtain ⟨digits, tail, htoken, hdigits⟩ :=
        @exists_run_of_readNumericEscape ctx.mode.freeSpacing c rest hc
      rw [htoken] at ht
      cases ht
      exact ⟨_, digits, tail, rfl, hdigits⟩
    | literal hliteral => exact (nothing hliteral).elim
    | _ => cases ht
  | literal _ hliteral => exact (nothing hliteral).elim
  | _ => cases ht

theorem holdsUnits_blocksOf {pattern : Text} {stream : Stream} (h : blocksOf pattern = .ok stream) :
    ∀ b ∈ stream.blocks, b.token.HoldsUnits :=
  forall_mem_blocksOf (by rintro _ ⟨⟩) (fun _ _ _ => readLead_holdsUnits) h

end Leads

section Run

variable {s s₁ s₂ : Cursor} {b c : Block} {text : Text}

/-- A literal block that is no escape for a character code is read as literal text, and takes the
quantifier behind it. -/
theorem Cursor.next_literalText (h : s.next = .ok (some (b, s₁))) (ht : b.token = .literal text)
    (hcode : ¬ IsCodeEscape text) :
    ∃ lead, lead.token = .literal text ∧ readLiteral s.mode.freeSpacing s.unread = .ok lead ∧
      lead.readTail s.mode.freeSpacing = .ok (b.repetition, b.trivia, s₁.unread) ∧
      b.repetition.isSome = quantifierFollows s.mode.freeSpacing lead.rest ∧ s₁.mode = s.mode := by
  obtain ⟨-, lead, htoken, hl, hr, hfront, -⟩ := Cursor.next_token h (by simp [ht])
  rw [ht] at htoken
  rw [htoken] at hr hfront
  have hliteral := (readLead_literal hl htoken).resolve_left hcode
  exact ⟨lead, htoken, hliteral, hr, ((readLiteral_attaches hliteral).readTail hr).1,
    congrArg Front.mode hfront⟩

theorem Cursor.next_single (h : s.next = .ok (some (b, s₁))) (ht : b.token = .literal text)
    (hsome : b.repetition.isSome) : IsLiteralUnit text ∨ IsCodeEscape text := by
  by_cases hcode : IsCodeEscape text
  · exact .inr hcode
  obtain ⟨lead, htoken, hliteral, hr, -⟩ := Cursor.next_literalText h ht hcode
  obtain ⟨unit, rest, hu, ⟨-, rfl⟩ | ⟨-, rfl⟩⟩ := readLiteral_eq_ok.1 hliteral
  · cases htoken
    exact .inl (isLiteralUnit_of_splitUnit hu)
  · rw [Lead.readTail, if_neg (by simp)] at hr
    cases hb : b.repetition with
    | none => rw [hb] at hsome; cases hsome
    | some r => rw [hb] at hr; cases hr

/-- Literal text without a quantifier is not cut off in front of literal text without one. -/
theorem Cursor.next_maximal {more : Text} (h : s.next = .ok (some (b, s₁)))
    (h₁ : s₁.next = .ok (some (c, s₂))) (hb : b.token = .literal text)
    (hc : c.token = .literal more) (hnone : b.repetition = none) (hnone₁ : c.repetition = none) :
    IsCodeEscape text ∨ IsCodeEscape more := by
  by_contra hcode
  obtain ⟨htext, hmore⟩ := not_or.1 hcode
  obtain ⟨lead, -, hliteral, hr, hfollows, hmode⟩ := Cursor.next_literalText h hb htext
  obtain ⟨lead₁, -, hliteral₁, -, hfollows₁, -⟩ := Cursor.next_literalText h₁ hc hmore
  rw [hnone] at hfollows
  rw [hnone₁] at hfollows₁
  obtain ⟨unit, rest, -, ⟨hq, rfl⟩ | ⟨-, rfl⟩⟩ := readLiteral_eq_ok.1 hliteral
  · rw [hq] at hfollows
    cases hfollows
  · -- the second block starts where the run of the first has ended
    rw [Lead.readTail, if_neg (by simp)] at hr
    have hunread : _ = s₁.unread := (Prod.mk.inj (Prod.mk.inj (Except.ok.inj hr)).2).2
    rw [hmode, ← hunread] at hliteral₁
    rw [hmode, quantifierFollows_of_end hliteral₁] at hfollows₁
    cases hfollows₁

end Run

/-- The quantifiers behind the literal text of a pattern bind to one unit each, and runs of literal
text are as long as they can be. -/
structure Stream.BindsUnits (stream : Stream) : Prop where
  single : ∀ b ∈ stream.blocks, ∀ text, b.token = .literal text → b.repetition.isSome →
    IsLiteralUnit text ∨ IsCodeEscape text
  maximal : ∀ before b c after text more, stream.blocks = before ++ b :: c :: after →
    b.token = .literal text → c.token = .literal more → b.repetition = none →
      c.repetition = none → IsCodeEscape text ∨ IsCodeEscape more
  /-- A quantifier follows, at once or behind trivia, where the block has one. -/
  attached : ∀ before b after, stream.blocks = before ++ b :: after →
    b.token.literalText?.isSome →
      (b.repetition.isSome ↔ quantifierFollows ((replay (before ++ [b])).options .x)
        (b.tailText ++ after.flatMap Block.text))

theorem blocksOf_bindsUnits {pattern : Text} {stream : Stream} (h : blocksOf pattern = .ok stream) :
    stream.BindsUnits := by
  obtain ⟨last, hc, hunread, -⟩ := blocksOf_eq_ok.1 h
  refine ⟨hc.forall_mem fun _ _ _ hn text => Cursor.next_single hn, ?_, ?_⟩
  · intro before b c after text more hsplit hb hc' hnone hnone₁
    rw [hsplit] at hc
    obtain ⟨s, -, _ | ⟨hn, _ | ⟨hn₁, -⟩⟩⟩ := Cursor.Cuts.append_iff.1 hc
    exact Cursor.next_maximal hn hn₁ hb hc' hnone hnone₁
  · intro before b after hsplit hliteral
    have htakes : b.TakesQuantifier := by
      cases ht : b.token with
      | literal | numericEscape => constructor <;> simp [ht, Token.StandsAlone, Token.IsBareAnchor]
      | _ => rw [ht] at hliteral; cases hliteral
    rw [hsplit] at hc
    have hattached := hc.isSome_eq htakes
    rw [hunread, List.append_nil] at hattached
    exact Bool.eq_iff_iff.1 hattached

end RegexAnatomy
