import RegexAnatomy.Proofs.Canonical.Leaves
import RegexAnatomy.Proofs.Options.Net

/-! The options of a pattern replayed over its blocks. A group keeps the options in
effect where it opens and gives them back where it closes, and option constructs
change them in between. The cursor follows the replay block by block; so the
options of the replay decide which parentheses capture, under which number, and
where blanks and comments are trivia and not literal text. -/

namespace RegexAnatomy

def writtenOptions (text : Text) : Text := (text.drop 2).takeWhile isOptionChar

structure Replay where
  options : OptionState := fun _ => false
  /-- What the open groups restore when they close, innermost first. -/
  saved : List OptionState := []

namespace Replay

def enter (r : Replay) : Replay := { r with saved := r.options :: r.saved }

def apply (text : Text) (r : Replay) : Replay :=
  { r with options := r.options.apply (writtenOptions text) }

def leave (r : Replay) : Replay :=
  match r.saved with
  | [] => r
  | options :: saved => { options, saved }

def step (r : Replay) (token : Token) : Replay :=
  match token with
  | .openParen _ | .openConditional => r.enter
  | .openGroup opener => r.enter.apply opener.text
  | .options text => r.apply text
  | .close => r.leave
  | _ => r

end Replay

def replay (bs : List Block) : Replay := bs.foldl (fun r b => r.step b.token) {}

def Token.captures : Token → List Nat
  | .openParen capture => capture.toList
  | _ => []

def captureCount (bs : List Block) : Nat := (bs.flatMap (·.token.captures)).length

def lastToken (bs : List Block) : Option Token := bs.getLast?.map Block.token

def Repetition.items (r : Repetition) : List Trivia := r.before ++ r.lazyMark.getD []

def Block.items (b : Block) : List Trivia := (b.repetition.map Repetition.items).getD [] ++ b.trivia

def Token.literalText? : Token → Option Text
  | .literal text | .numericEscape text => some text
  | _ => none

/-- What stands in a text apart from backslashes and the characters behind them. -/
def unescaped : Text → Text
  | '\\' :: _ :: rest => unescaped rest
  | c :: rest => c :: unescaped rest
  | [] => []

def isSpacing (c : Char) : Bool := isBlank c || c = '#'

/-- What the options decide about a block, replayed over the blocks before it. -/
structure Block.FollowsOptions (before : List Block) (b : Block) : Prop where
  /-- What closes restores the options of a group that is open. -/
  close : b.token = .close → (replay before).saved ≠ []
  capture : ∀ capture, b.token = .openParen capture →
    (capture.isSome ↔ (replay before).options .n = false ∧
      lastToken before ≠ some .openConditional)
  number : ∀ n, b.token = .openParen (some n) → n = captureCount before + 1
  spacing : ∀ item ∈ b.items, item.kind ≠ .inlineComment → (replay (before ++ [b])).options .x
  literal : ∀ text, b.token.literalText? = some text → ∀ c ∈ unescaped text, isSpacing c →
    (replay before).options .x = false

structure Stream.FollowsOptions (stream : Stream) : Prop where
  blocks : ∀ before b after, stream.blocks = before ++ b :: after → b.FollowsOptions before
  captures : stream.captures = captureCount stream.blocks
  names : stream.names = stream.blocks.flatMap (·.token.names)

section Written

variable {letters : Text} {last : Char}

theorem applySigned_last (h : isOptionChar last = false) (t : Text) :
    ∀ on (st : OptionState), st.applySigned on (t ++ [last]) = st.applySigned on t := by
  have hletter : isOptionLetter last = false := by
    refine Bool.eq_false_iff.2 fun hl => ?_
    rw [isOptionChar_of_isOptionLetter hl] at h
    cases h
  have hplus : last ≠ '+' := by rintro rfl; cases h
  have hminus : last ≠ '-' := by rintro rfl; cases h
  induction t with
  | nil => exact fun on st => applySigned_skip hletter hplus hminus on st []
  | cons c t ih =>
    intro on st
    simp only [List.cons_append, OptionState.applySigned, ih]

/-- Reading a construct for its options, the signs around the options do not count. -/
theorem apply_writtenOptions (hl : ∀ c ∈ letters, isOptionChar c)
    (hlast : isOptionChar last = false) (st : OptionState) :
    st.apply (writtenOptions ('(' :: '?' :: letters ++ [last])) =
      st.apply ('(' :: '?' :: letters ++ [last]) := by
  have htake : (letters ++ [last]).takeWhile isOptionChar = letters :=
    (takeWhile_append_exact hl (by simpa using hlast)).1
  have hwritten : writtenOptions ('(' :: '?' :: letters ++ [last]) = letters := htake
  rw [hwritten, List.cons_append, List.cons_append, IsOptionConstruct.apply_eq,
    applySigned_last hlast]
  rfl

theorem writtenOptions_of_not_opensOptions {text : Text} (h : opensOptions text = false) :
    writtenOptions text = [] := by
  match text with
  | [] | [_] | [_, _] => rfl
  | _ :: _ :: c :: _ =>
    have hc : isOptionChar c = false := by simpa [opensOptions] using h
    simp [writtenOptions, hc]

/-- A group that sets options is opened by them. -/
theorem exists_letters_of_opensOptions {t : Text} {lead : Lead} {opener : GroupOpener}
    (h : readConstruct t = .ok lead) (ht : lead.token = .openGroup opener)
    (ho : opensOptions opener.text) :
    ∃ letters, (∀ c ∈ letters, isOptionChar c) ∧ opener.text = '(' :: '?' :: letters ++ [':'] := by
  have named {mark close : Char} {t : Text} (hm : isOptionChar mark = false)
      (h : readNamedOpener mark close t = .ok lead) : False := by
    obtain ⟨_, _, _, _, _, -, -, -, -, rfl⟩ := readNamedOpener_eq_ok.1 h
    cases ht
    simp [opensOptions, hm] at ho
  have signs : ∀ sign ∈ groupSigns, opensOptions ('(' :: '?' :: sign) = false := by decide
  cases behindQuestion_of_readConstruct h with
  | sign hsign =>
    cases ht
    rw [signs _ hsign] at ho
    cases ho
  | angled _ h | quoted h => exact (named (by decide) h).elim
  | options _ h =>
    obtain ⟨letters, rest, hletters, ⟨-, rfl⟩ | ⟨-, rfl⟩⟩ := readOptions_eq_ok.1 h <;> cases ht
    exact ⟨letters, hletters, rfl⟩
  | conditional => cases ht

end Written

section Spacing

variable {free : Bool} {t rest : Text}

/-- Blanks and line comments are among the items in free spacing only. -/
def SpacedUnder (free : Bool) (items : List Trivia) : Prop :=
  ∀ item ∈ items, item.kind ≠ .inlineComment → free

theorem free_of_splitTrivia {item : Trivia} (h : splitTrivia free t = some (item, rest))
    (hk : item.kind ≠ .inlineComment) : free := by
  unfold splitTrivia at h
  split at h
  · split at h <;> cases h
    exact absurd rfl hk
  · split at h
    next hfree => exact hfree
    next => cases h

theorem spacedUnder_takeTrivia (free : Bool) (t : Text) :
    SpacedUnder free (takeTrivia free t).1 := by
  fun_induction takeTrivia free t with
  | case1 => exact List.forall_mem_nil _
  | case2 t item rest h hl more after he ih =>
    rw [he] at ih
    exact List.forall_mem_cons.2 ⟨free_of_splitTrivia h, ih⟩

theorem forall_mem_readTrivia {P : Trivia → Prop}
    (hP : ∀ t, ∀ item ∈ (takeTrivia free t).1, P item) {items : List Trivia}
    (h : readTrivia free t = .ok (items, rest)) : ∀ item ∈ items, P item := by
  have ht := hP t
  rwa [(readTrivia_eq_ok.1 h).1] at ht

theorem forall_mem_readTail {P : Trivia → Prop}
    (hP : ∀ t, ∀ item ∈ (takeTrivia free t).1, P item) {lead : Lead}
    {repetition : Option Repetition} {items : List Trivia}
    (h : lead.readTail free = .ok (repetition, items, rest)) :
    ∀ item ∈ (repetition.map Repetition.items).getD [] ++ items, P item := by
  unfold Lead.readTail at h
  split at h
  next =>
    simp only [readRepetition, bind_eq_ok] at h
    obtain ⟨⟨before, rest₁⟩, hb, h⟩ := h
    have hb := forall_mem_readTrivia hP hb
    split at h
    next => cases h; exact hb
    next =>
      obtain ⟨⟨after, rest₂⟩, ha, h⟩ := bind_eq_ok.1 h
      have ha := forall_mem_readTrivia hP ha
      have hboth := List.forall_mem_append.2 ⟨hb, ha⟩
      split at h <;> cases h <;> simpa [Repetition.items] using hboth
  next => cases h; exact List.forall_mem_nil _

/-- What holds of the trivia that are taken off a text holds of all the trivia of a block. -/
theorem Cursor.forall_mem_items {P : Trivia → Prop} {s s₁ : Cursor} {b : Block}
    (hP : ∀ t, ∀ item ∈ (takeTrivia s₁.mode.freeSpacing t).1, P item)
    (hn : s.next = .ok (some (b, s₁))) : ∀ item ∈ b.items, P item := by
  rcases Cursor.next_cases hn with ⟨items, rest, ht, -, rfl, rfl⟩ |
    ⟨-, lead, repetition, items, rest, -, hr, rfl, rfl⟩
  · exact forall_mem_readTrivia hP ht
  · exact forall_mem_readTail hP hr

end Spacing

section Items

theorem Block.mem_items_of_mem_before {b : Block} {n : Node} (h : n ∈ b.suffix.before) :
    ∃ item ∈ b.items, item.node = n := by
  cases hb : b.repetition with
  | none => simp [Block.suffix, hb] at h
  | some r =>
    have hs : b.suffix = r.suffix := by simp [Block.suffix, hb]
    rw [hs, r.suffix_before] at h
    obtain ⟨item, hitem, rfl⟩ := List.mem_map.1 h
    exact ⟨item, by simp [Block.items, hb, Repetition.items, hitem], rfl⟩

theorem Repetition.mem_items_of_mem_after {r : Repetition} {n : Node} (h : n ∈ r.suffix.after) :
    ∃ item ∈ r.items, item.node = n := by
  unfold Repetition.suffix at h
  dsimp only at h
  split at h
  · cases h
  · cases h
  next items hmark =>
    split at h
    · cases h
    · obtain ⟨item, hitem, rfl⟩ := List.mem_map.1 h
      exact ⟨item, by simp [Repetition.items, hmark, hitem], rfl⟩

theorem Block.mem_items_of_mem_loose {b : Block} {n : Node} (h : n ∈ b.loose) :
    ∃ item ∈ b.items, item.node = n := by
  rcases List.mem_append.1 h with h | h
  · cases hb : b.repetition with
    | none => simp [Block.suffix, hb] at h
    | some r =>
      have hs : b.suffix = r.suffix := by simp [Block.suffix, hb]
      rw [hs] at h
      obtain ⟨item, hitem, rfl⟩ := r.mem_items_of_mem_after h
      exact ⟨item, by simp [Block.items, hb, hitem], rfl⟩
  · obtain ⟨item, hitem, rfl⟩ := List.mem_map.1 h
    exact ⟨item, by simp [Block.items, hitem], rfl⟩

end Items

section Unescaped

variable {t w : Text}

theorem mem_of_mem_unescaped {c : Char} (h : c ∈ unescaped t) : c ∈ t := by
  fun_induction unescaped t with
  | case1 d rest ih => exact List.mem_cons_of_mem _ (List.mem_cons_of_mem _ (ih h))
  | case2 d rest hne ih =>
    rcases List.mem_cons.1 h with rfl | h
    · exact List.mem_cons_self
    · exact List.mem_cons_of_mem _ (ih h)
  | case3 => cases h

theorem unescaped_cons {c : Char} (hc : c ≠ '\\') (t : Text) :
    unescaped (c :: t) = c :: unescaped t := by
  rw [unescaped]
  rintro d rest he -
  exact hc he

/-- In free spacing, blanks and comment signs are in literal text only as escapes. -/
theorem UnitRun.unescaped (h : UnitRun true w) : ∀ c ∈ unescaped w, isSpacing c = false := by
  induction h with
  | nil => simp [RegexAnatomy.unescaped]
  | @cons unit w hu hw ih =>
    rcases splitUnit_shape hu with ⟨d, rfl⟩ | ⟨d, rfl, hd⟩
    · exact ih
    · rw [List.singleton_append, unescaped_cons hd]
      rw [List.singleton_append, splitUnit_cons hd] at hu
      refine List.forall_mem_cons.2 ⟨?_, ih⟩
      by_contra hspacing
      simp_all [isSpacing]

theorem not_isSpacing {p : Char → Bool}
    (hall : [' ', '\t', '\r', '\n', '\x0c', '#'].all (! p ·)) {c : Char} (h : p c) :
    isSpacing c = false := by
  refine Bool.eq_false_iff.2 fun hs => ?_
  have hnone := List.all_eq_true.1 hall c (by simpa [isSpacing, isBlank, or_assoc] using hs)
  simp [h] at hnone

theorem unescaped_digits (h : ∀ c ∈ t, c.isDigit) (w : Text) :
    unescaped (t ++ w) = t ++ unescaped w := by
  induction t with
  | nil => rfl
  | cons c t ih =>
    obtain ⟨hc, ht⟩ := List.forall_mem_cons.1 h
    have hslash : c ≠ '\\' := by rintro rfl; exact absurd hc (by decide)
    rw [List.cons_append, unescaped_cons hslash, ih ht, List.cons_append]

/-- Hexadecimal digits and control letters are no spacing. -/
theorem IsCodeEscape.not_isSpacing {c : Char} {arg : Text} (h : IsCodeEscape ('\\' :: c :: arg)) :
    ∀ d ∈ arg, isSpacing d = false := by
  cases h with
  | byte _ hd | unicode _ hd => exact fun d hm => RegexAnatomy.not_isSpacing (by decide) (hd d hm)
  | control hd => simpa using RegexAnatomy.not_isSpacing (p := isControlLetter) (by decide) hd

theorem unescaped_readEscape {lead : Lead} {text : Text} (h : readEscape true t = .ok lead)
    (ht : lead.token.literalText? = some text) : ∀ c ∈ unescaped text, isSpacing c = false := by
  cases behindBackslash_of_readEscape h with
  | angled | quoted | charClass | anchor => cases ht
  | @numeric c hc rest =>
    obtain ⟨digits, tail, htoken, hne, hdigits, htail, -⟩ :=
      @exists_run_of_readNumericEscape true c rest hc
    rw [htoken] at ht
    cases ht
    obtain ⟨d, digits, rfl⟩ := List.exists_cons_of_ne_nil hne
    have hmore := (List.forall_mem_cons.1 hdigits).2
    rw [List.cons_append, unescaped, unescaped_digits hmore]
    exact List.forall_mem_append.2
      ⟨fun d hd => not_isSpacing (by decide) (hmore d hd), htail.unescaped⟩
  | @code c _ arg rest hc harg =>
    cases ht
    exact fun d hd =>
      (isCodeEscape_of_escapeArgument hc harg).not_isSpacing d (mem_of_mem_unescaped hd)
  | literal hliteral =>
    obtain ⟨w, htoken, -, hw⟩ := exists_run_of_readLiteral hliteral
    rw [htoken] at ht
    cases ht
    exact hw.unescaped

theorem unescaped_readLead {ctx : Context} {lead : Lead} {text : Text}
    (hfree : ctx.mode.freeSpacing) (h : readLead ctx t = .ok (some lead))
    (ht : lead.token.literalText? = some text) : ∀ c ∈ unescaped text, isSpacing c = false := by
  cases atFront_of_readLead h with
  | construct h =>
    rcases readConstruct_cases h with ⟨_, hc⟩ | ⟨_, hc⟩ | ⟨hc, -⟩ <;> rw [hc] at ht <;> cases ht
  | escape h =>
    rw [hfree] at h
    exact unescaped_readEscape h ht
  | literal _ h =>
    obtain ⟨w, htoken, -, hw⟩ := exists_run_of_readLiteral h
    rw [hfree] at hw
    rw [htoken] at ht
    cases ht
    exact hw.unescaped
  | _ => cases ht

end Unescaped

section Run

variable {s s₁ s' : Cursor} {before bs : List Block} {b : Block}

@[simp] theorem replay_append (before : List Block) (b : Block) :
    replay (before ++ [b]) = (replay before).step b.token := by
  simp [replay]

@[simp] theorem captureCount_append (before : List Block) (b : Block) :
    captureCount (before ++ [b]) = captureCount before + b.token.captures.length := by
  simp [captureCount]

@[simp] theorem lastToken_append (before : List Block) (b : Block) :
    lastToken (before ++ [b]) = some b.token := by
  simp [lastToken]

/-- What a token writes as options is all that its text sets. -/
structure Token.WritesOptions (token : Token) : Prop where
  options : ∀ text, token = .options text → ∀ st : OptionState,
    st.apply (writtenOptions text) = st.apply text
  opener : ∀ opener, token = .openGroup opener → ∀ st : OptionState,
    st.apply (writtenOptions opener.text) =
      if opensOptions opener.text then st.apply opener.text else st

theorem readLead_writesOptions {ctx : Context} {t : Text} {lead : Lead}
    (h : readLead ctx t = .ok (some lead)) : lead.token.WritesOptions := by
  refine ⟨fun text ht st => ?_, fun opener ht st => ?_⟩
  · obtain ⟨letters, hl, rfl⟩ := (readLead_regular h).token.options text ht
    exact apply_writtenOptions hl (by decide) st
  · split
    next ho =>
      obtain ⟨rest, hconstruct⟩ := readConstruct_of_openGroup h ht
      obtain ⟨letters, hl, htext⟩ := exists_letters_of_opensOptions hconstruct ht ho
      rw [htext]
      exact apply_writtenOptions hl (by decide) st
    next ho =>
      rw [writtenOptions_of_not_opensOptions (by simpa using ho)]
      rfl

/-- The cursor behind the blocks has in effect, keeps and has counted what the replay has. -/
structure Cursor.Replays (before : List Block) (s : Cursor) : Prop where
  mode : s.mode = (replay before).options.mode
  scopes : s.scopes.map Scope.saved = (replay before).saved.map OptionState.mode
  captures : s.captures = captureCount before
  atTest : s.atTest ↔ lastToken before = some .openConditional

theorem Cursor.replays_start (pattern : Text) : Cursor.Replays [] { unread := pattern } :=
  ⟨rfl, rfl, rfl, by simp [lastToken]⟩

theorem Cursor.note_atTest (token : Token) (s : Cursor) :
    (s.note token).atTest = decide (token = .openConditional) := by
  unfold Cursor.note
  cases token with
  | close => dsimp only; split <;> rfl
  | _ => rfl

theorem Cursor.note_captures (token : Token) (s : Cursor) :
    (s.note token).captures = s.captures + token.captures.length := by
  unfold Cursor.note
  cases token with
  | openParen capture => cases capture <;> rfl
  | close => dsimp only; split <;> rfl
  | _ => rfl

theorem Cursor.Replays.note (h : s.Replays before) (hw : b.token.WritesOptions) :
    (s.note b.token).Replays (before ++ [b]) := by
  have hmode := h.mode
  have hscopes := h.scopes
  suffices hstep : (s.note b.token).mode = ((replay before).step b.token).options.mode ∧
      (s.note b.token).scopes.map Scope.saved =
        ((replay before).step b.token).saved.map OptionState.mode by
    refine ⟨?_, ?_, ?_, ?_⟩
    · rw [replay_append, hstep.1]
    · rw [replay_append, hstep.2]
    · rw [captureCount_append, Cursor.note_captures, h.captures]
    · rw [lastToken_append, Cursor.note_atTest]
      simp
  cases ht : b.token with
  | openParen | openConditional =>
    exact ⟨hmode, by simp [Cursor.note, Replay.step, Replay.enter, hmode, hscopes]⟩
  | openGroup opener =>
    refine ⟨?_, by simp [Cursor.note, Replay.step, Replay.enter, Replay.apply, hmode, hscopes]⟩
    rw [Replay.step, Replay.apply, hw.opener opener ht]
    split
    next ho => simp only [Cursor.note, if_pos ho, hmode, OptionState.mode_apply, Replay.enter]
    next ho => simp only [Cursor.note, if_neg ho, hmode, Replay.enter]
  | options text =>
    refine ⟨?_, hscopes⟩
    rw [Replay.step, Replay.apply, hw.options text ht, OptionState.mode_apply]
    exact congrArg (Mode.apply · text) hmode
  | close =>
    cases hs : s.scopes with
    | nil =>
      rw [hs] at hscopes
      have hsaved : (replay before).saved = [] := List.map_eq_nil_iff.1 hscopes.symm
      simp [Cursor.note, Replay.step, Replay.leave, hs, hsaved, hmode]
    | cons scope outer =>
      rw [hs, List.map_cons] at hscopes
      obtain ⟨options, saved, hsaved, hsaved', hrest⟩ := List.map_eq_cons_iff.1 hscopes.symm
      simp [Cursor.note, Replay.step, Replay.leave, hs, hsaved, hsaved', hrest]
  | _ => exact ⟨hmode, hscopes⟩

/-- A block changes the cursor by its token, and by moving it. -/
theorem Cursor.next_note (h : s.next = .ok (some (b, s₁))) :
    ∃ taken rest, s₁ = (s.note b.token).advance taken rest := by
  rcases Cursor.next_cases h with ⟨items, rest, -, -, rfl, rfl⟩ |
    ⟨-, lead, repetition, items, rest, -, -, rfl, rfl⟩
  · exact ⟨_, rest, rfl⟩
  · exact ⟨_, rest, rfl⟩

theorem Cursor.next_writesOptions (h : s.next = .ok (some (b, s₁))) : b.token.WritesOptions := by
  have hlayout : Token.layout.WritesOptions := ⟨by simp, by simp⟩
  exact Cursor.next_forall_token hlayout (fun _ _ _ => readLead_writesOptions) h

theorem Cursor.Replays.next (h : s.Replays before) (hn : s.next = .ok (some (b, s₁))) :
    s₁.Replays (before ++ [b]) := by
  obtain ⟨taken, rest, rfl⟩ := Cursor.next_note hn
  have hnote := h.note (Cursor.next_writesOptions hn)
  exact ⟨hnote.mode, hnote.scopes, hnote.captures, hnote.atTest⟩

theorem Cursor.Replays.cuts (h : s.Replays before) (hc : s.Cuts bs s') :
    s'.Replays (before ++ bs) := by
  induction hc generalizing before with
  | nil => simpa using h
  | @cons s s₁ s₂ b bs hn _ ih => simpa using ih (h.next hn)

/-- Where the cursor follows the replay, the next block is cut off as the replay says. -/
theorem Cursor.Replays.followsOptions (h : s.Replays before)
    (hn : s.next = .ok (some (b, s₁))) : b.FollowsOptions before := by
  have hspacing : SpacedUnder s₁.mode.freeSpacing b.items :=
    Cursor.forall_mem_items (spacedUnder_takeTrivia _) hn
  rw [(h.next hn).mode] at hspacing
  have token (hb : b.token ≠ .layout) :
      ∃ lead, lead.token = b.token ∧ readLead s.context s.unread = .ok (some lead) := by
    obtain ⟨-, lead, htoken, hl, -⟩ := Cursor.next_token hn hb
    exact ⟨lead, htoken, hl⟩
  have hcapture {capture : Option Nat} (ht : b.token = .openParen capture) :
      capture = s.context.nextCapture := by
    obtain ⟨lead, htoken, hl⟩ := token (by simp [ht])
    exact capture_of_openParen hl (htoken.trans ht)
  refine ⟨fun ht hsaved => ?_, fun capture ht => ?_, fun n ht => ?_, hspacing,
    fun text ht c hc hs => ?_⟩
  · obtain ⟨lead, htoken, hl⟩ := token (by simp [ht])
    have hscopes := h.scopes
    rw [hsaved, List.map_nil, List.map_eq_nil_iff] at hscopes
    have hinside := insideGroup_of_close hl (htoken.trans ht)
    simp [Cursor.context, hscopes] at hinside
  · rw [hcapture ht, Ne, ← h.atTest]
    have hmode : s.mode.explicitCapture = (replay before).options .n := by rw [h.mode]; rfl
    simp [Context.nextCapture, Cursor.context, hmode, and_comm]
  · have hn := hcapture ht
    rw [Context.nextCapture] at hn
    split at hn <;> cases hn
    rw [← h.captures]
    rfl
  · obtain ⟨lead, htoken, hl⟩ := token (by rintro hb; rw [hb] at ht; cases ht)
    refine Bool.eq_false_iff.2 fun hx => ?_
    have hfree : s.mode.freeSpacing := by rw [h.mode]; exact hx
    rw [unescaped_readLead hfree hl (htoken ▸ ht) c hc] at hs
    cases hs

end Run

/-- The options replayed over the blocks of a pattern decide what captures, and where blanks and
comments are no literal text. -/
theorem blocksOf_followsOptions {pattern : Text} {stream : Stream}
    (h : blocksOf pattern = .ok stream) : stream.FollowsOptions := by
  obtain ⟨last, hc, -, -, hcaptures, -⟩ := blocksOf_eq_ok.1 h
  have hstart := Cursor.replays_start pattern
  refine ⟨fun before b after hsplit => ?_, ?_, names_blocksOf h⟩
  · rw [hsplit] at hc
    obtain ⟨s, hbefore, _ | ⟨hn, -⟩⟩ := Cursor.Cuts.append_iff.1 hc
    exact (hstart.cuts hbefore).followsOptions hn
  · rw [hcaptures, (hstart.cuts hc).captures, List.nil_append]

/-- Captures go off, come back in a group of free spacing, and go off again behind it; in the
conditional they come back once more. -/
def scopedPattern : Text := "(?n)(a)((?x-n: (b) # c\n) d)(?(?<g>e) (?-N)(f)|#)(h)".toList

theorem blocksOf_followsOptions_scopedPattern :
    ∃ stream, blocksOf scopedPattern = .ok stream ∧
      stream.blocks.flatMap (·.token.captures) = [1, 2] ∧ stream.FollowsOptions := by
  have hblocks : ((blocksOf scopedPattern).toOption.map fun stream =>
      stream.blocks.flatMap (·.token.captures)) = some [1, 2] := by decide +kernel
  cases hs : blocksOf scopedPattern with
  | error e => rw [hs] at hblocks; cases hblocks
  | ok stream =>
    rw [hs] at hblocks
    exact ⟨stream, rfl, Option.some.inj hblocks, blocksOf_followsOptions hs⟩

end RegexAnatomy
