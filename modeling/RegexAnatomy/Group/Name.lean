import RegexAnatomy.PatternError
import RegexAnatomy.Text.Word

/-! Group names as they are written: a run of word characters that either starts
with no digit or is a decimal number below `2 ^ 32`. -/

namespace RegexAnatomy

def groupNumberBound : Nat := Nat.pow 2 32

def startsWithDigit : Text → Bool
  | c :: _ => c.isDigit
  | [] => false

def isGroupNumber (t : Text) : Bool := isNumeral t && numeralValue t < groupNumberBound

/-- The name that the text starts with, if there is one, and the text after it. A name that starts
with a digit and is no group number is a fault. -/
def readGroupName (t : Text) : Except Fault (Option Text × Text) :=
  let name := t.takeWhile isWordChar
  if name = [] then .ok (none, t)
  else if startsWithDigit name && !isGroupNumber name then
    .error (.malformed (.badGroupName name) t)
  else .ok (some name, t.dropWhile isWordChar)

theorem readGroupName_append {t rest : Text} {name : Option Text}
    (h : readGroupName t = .ok (name, rest)) : name.getD [] ++ rest = t := by
  simp only [readGroupName] at h
  split at h
  · simp at h; simp [← h.1, ← h.2]
  split at h
  · cases h
  · simp at h; simp [← h.1, ← h.2, List.takeWhile_append_dropWhile]

end RegexAnatomy
