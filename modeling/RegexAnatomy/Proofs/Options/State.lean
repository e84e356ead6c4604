import RegexAnatomy.InlineOptions

/-! The options in effect as a setting of the five letters, and what an option
construct does to them. The reading of a pattern depends on two of the letters
only, so its mode is a part of such a setting. -/

namespace RegexAnatomy

inductive OptionLetter where
  | i | m | n | s | x
  deriving DecidableEq

def OptionLetter.char : OptionLetter → Char
  | i => 'i'
  | m => 'm'
  | n => 'n'
  | s => 's'
  | x => 'x'

abbrev OptionState := OptionLetter → Bool

namespace OptionState

/-- Sets the letter that `c` writes, in either case; any other character sets nothing. -/
def set (c : Char) (on : Bool) (st : OptionState) : OptionState :=
  fun l => if c.toLower = l.char then on else st l

def applySigned (on : Bool) (st : OptionState) : Text → OptionState
  | [] => st
  | c :: rest =>
    if c = '+' then applySigned true st rest
    else if c = '-' then applySigned false st rest
    else applySigned on (st.set c on) rest

def apply (st : OptionState) (options : Text) : OptionState := st.applySigned true options

def applyAll (st : OptionState) (constructs : List Text) : OptionState :=
  constructs.foldl apply st

def mode (st : OptionState) : Mode := ⟨st .x, st .n⟩

end OptionState

section Letters

theorem isOptionLetter_of_char {l : OptionLetter} {c : Char} (h : c.toLower = l.char) :
    isOptionLetter c := by
  unfold isOptionLetter
  rw [h]
  cases l <;> decide

theorem exists_char_of_isOptionLetter {c : Char} (h : isOptionLetter c) :
    ∃ l : OptionLetter, c.toLower = l.char := by
  simp only [isOptionLetter, List.contains_eq_mem, List.mem_cons, List.not_mem_nil,
    or_false, decide_eq_true_eq] at h
  rcases h with h | h | h | h | h
  · exact ⟨.i, h⟩
  · exact ⟨.m, h⟩
  · exact ⟨.n, h⟩
  · exact ⟨.s, h⟩
  · exact ⟨.x, h⟩

theorem OptionState.set_of_not_letter {c : Char} (h : isOptionLetter c = false) (on : Bool)
    (st : OptionState) : st.set c on = st := by
  funext l
  refine if_neg fun hl => ?_
  rw [isOptionLetter_of_char hl] at h
  cases h

end Letters

theorem OptionState.mode_set (c : Char) (on : Bool) (st : OptionState) :
    (st.set c on).mode =
      if c.toLower = 'x' then { st.mode with freeSpacing := on }
      else if c.toLower = 'n' then { st.mode with explicitCapture := on }
      else st.mode := by
  simp only [OptionState.mode, OptionState.set, OptionLetter.char]
  by_cases hx : c.toLower = 'x'
  · simp [hx]
  · by_cases hn : c.toLower = 'n' <;> simp [hx, hn]

theorem OptionState.mode_applySigned (t : Text) :
    ∀ on (st : OptionState), (st.applySigned on t).mode = st.mode.applySigned on t := by
  induction t with
  | nil => exact fun _ _ => rfl
  | cons c rest ih =>
    intro on st
    simp only [OptionState.applySigned, Mode.applySigned]
    split
    · exact ih true st
    split
    · exact ih false st
    · rw [ih, OptionState.mode_set]
      split
      · rfl
      · split <;> rfl

/-- The mode follows the options in effect. -/
theorem OptionState.mode_apply (st : OptionState) (options : Text) :
    (st.apply options).mode = st.mode.apply options :=
  mode_applySigned options true st

theorem OptionState.mode_applyAll (st : OptionState) (constructs : List Text) :
    (st.applyAll constructs).mode = constructs.foldl Mode.apply st.mode := by
  induction constructs generalizing st with
  | nil => rfl
  | cons c cs ih => exact (ih (st.apply c)).trans (by rw [mode_apply]; rfl)

end RegexAnatomy
