import Mathlib.Data.List.Induction
import RegexAnatomy.Proofs.Assembly.Frames
import RegexAnatomy.Proofs.Block.Faults
import RegexAnatomy.Proofs.Block.Partition

/-! What stands at a place of a pattern. The position of a block, and of the rear part
that a fault hands out, is worked out of the blocks in front of it; an opener that is
still open stands where the block of it was cut off. -/

namespace RegexAnatomy

variable {before after : List Block} {b : Block} {pattern : Text}

/-- Where the rear part that a fault hands out starts in the pattern. -/
theorem locate_eq {passed front found : Text} {cause : Malformation} :
    Fault.locate (utf8Length passed) (front ++ found) (.malformed cause found) =
      .malformed (utf8Length (passed ++ front)) cause := by
  simp [Fault.locate, Fault.found]

/-- The cursor at which a block of the pattern is cut off. -/
theorem exists_cursor_of_blocks (h : (cutPattern pattern).blocks = before ++ b :: after) :
    ∃ s s₁ : Cursor, s.next = .ok (some (b, s₁)) ∧
      before.flatMap Block.text ++ s.unread = pattern ∧
        s.position = utf8Length (before.flatMap Block.text) := by
  have hcuts := Cursor.cuts_cut { unread := pattern }
  rw [← cutPattern, h] at hcuts
  obtain ⟨s, hbefore, hrest⟩ := Cursor.Cuts.append_iff.1 hcuts
  cases hrest with
  | cons hn hafter =>
    refine ⟨s, _, hn, hbefore.text, ?_⟩
    rw [hbefore.position]
    exact Nat.zero_add _

/-- A block stands where the text of the blocks before it ends. -/
theorem exists_place (h : (cutPattern pattern).blocks = before ++ b :: after)
    (hb : b.token ≠ .layout) :
    ∃ tail, pattern = before.flatMap Block.text ++ (b.token.text ++ tail) ∧
      b.span = ⟨utf8Length (before.flatMap Block.text),
        utf8Length (before.flatMap Block.text ++ b.token.text)⟩ := by
  obtain ⟨s, s₁, hn, hpattern, hposition⟩ := exists_cursor_of_blocks h
  refine ⟨(b.repetition.map Repetition.text).getD [] ++ (triviaText b.trivia ++ s₁.unread), ?_, ?_⟩
  · rw [← hpattern, ← (Cursor.next_text hn).1, Block.text]
    simp only [List.append_assoc]
  · rw [Cursor.next_span hn, Cursor.spanOf, hposition, Block.marked, if_neg hb, utf8Length_append]

/-- Behind the opener of a conditional the parenthesis of its test stands. -/
theorem exists_test_place (h : (cutPattern pattern).blocks = before ++ b :: after)
    (hb : b.token = .openConditional) :
    ∃ tail, pattern = before.flatMap Block.text ++ '(' :: '?' :: '(' :: tail := by
  obtain ⟨s, s₁, hn, hpattern, -⟩ := exists_cursor_of_blocks h
  have hopening : b.token.opening? = some .conditional := by rw [hb]; rfl
  obtain ⟨-, lead, htoken, hl, -⟩ := Cursor.next_opening hn hopening
  have hstarts : StartsTest lead.rest := startsTest_of_readLead hl (htoken.trans hb)
  obtain ⟨tail, htail⟩ := List.head?_eq_some_iff.1 hstarts.1
  have hlead := (readLead_covers hl).1
  rw [htoken, hb, htail] at hlead
  exact ⟨tail, by rw [← hpattern, ← hlead]; rfl⟩

/-- The blocks before an opener that is still open leave open what is open around it. -/
theorem exists_of_openers_eq {bs opened : List Block} (outer : List Block)
    (h : openers bs = outer ++ b :: opened) :
    ∃ before inside, bs = before ++ b :: inside ∧ openers before = opened ∧
      b.token.opening?.isSome := by
  induction bs using List.reverseRecOn generalizing outer with
  | nil => simp [openers] at h
  | append_singleton bs c ih =>
    have further (outer : List Block) (h : openers bs = outer ++ b :: opened) :
        ∃ before inside, bs ++ [c] = before ++ b :: inside ∧ openers before = opened ∧
          b.token.opening?.isSome := by
      obtain ⟨before, inside, rfl, hbefore⟩ := ih outer h
      exact ⟨before, inside ++ [c], by simp, hbefore⟩
    rw [openers_append] at h
    unfold Block.nest at h
    split at h
    next hopening =>
      cases outer with
      | nil =>
        obtain ⟨rfl, hopened⟩ := List.cons.inj h
        exact ⟨bs, [], rfl, hopened, hopening⟩
      | cons d outer => exact further outer (List.cons.inj h).2
    split at h
    next =>
      cases ho : openers bs with
      | nil => simp [ho] at h
      | cons d opened' =>
        rw [ho, List.tail_cons] at h
        exact further (d :: outer) (by rw [ho, h]; rfl)
    next => exact further outer h

end RegexAnatomy
