import RegexAnatomy.Text

/-! Escapes that demand an argument: a property name in braces after `\p` and
`\P`, hexadecimal digits after `\u` and `\x`, a control letter after `\c`. They
are read alike inside and outside a character class. -/

namespace RegexAnatomy

def isPropertyLetter (c : Char) : Bool := c = 'p' ∨ c = 'P'

def isPropertyNameChar (c : Char) : Bool := c.isAlphanum ∨ c = '-'

def isHexDigit (c : Char) : Bool :=
  c.isDigit ∨ ('a' ≤ c ∧ c ≤ 'f') ∨ ('A' ≤ c ∧ c ≤ 'F')

def isControlLetter (c : Char) : Bool := c.isAlpha ∨ ['[', '\\', ']', '^', '_'].contains c

/-- A name in braces. -/
def splitProperty : Text → Option (Text × Text)
  | '{' :: t =>
    let name := t.takeWhile isPropertyNameChar
    match t.dropWhile isPropertyNameChar with
    | '}' :: rest => if name = [] then none else some ('{' :: name ++ ['}'], rest)
    | _ => none
  | _ => none

def splitHex (count : Nat) (t : Text) : Option (Text × Text) :=
  let digits := t.take count
  if digits.length = count ∧ digits.all isHexDigit then some (digits, t.drop count) else none

def splitControl : Text → Option (Text × Text)
  | c :: rest => if isControlLetter c then some ([c], rest) else none
  | [] => none

/-- What the escape of `letter` takes from the text after the letter; nothing for most letters,
and `none` when a demanded argument is not there. -/
def escapeArgument (letter : Char) (t : Text) : Option (Text × Text) :=
  if isPropertyLetter letter then splitProperty t
  else if letter = 'u' then splitHex 4 t
  else if letter = 'x' then splitHex 2 t
  else if letter = 'c' then splitControl t
  else some ([], t)

theorem splitProperty_append {t arg rest : Text} (h : splitProperty t = some (arg, rest)) :
    arg ++ rest = t := by
  unfold splitProperty at h
  split at h
  next u =>
    have hu := List.takeWhile_append_dropWhile (p := isPropertyNameChar) (l := u)
    dsimp only at h
    split at h
    next hr =>
      split at h
      · cases h
      · rw [hr] at hu; simp at h; simp [← h.1, ← h.2, hu]
    next => cases h
  next => cases h

theorem splitHex_append {count : Nat} {t arg rest : Text}
    (h : splitHex count t = some (arg, rest)) : arg ++ rest = t := by
  simp only [splitHex] at h
  split at h
  · simp only [Option.some.injEq, Prod.mk.injEq] at h
    rw [← h.1, ← h.2, List.take_append_drop]
  · cases h

theorem splitControl_append {t arg rest : Text} (h : splitControl t = some (arg, rest)) :
    arg ++ rest = t := by
  unfold splitControl at h
  split at h
  · split at h
    · simp at h; simp [← h.1, ← h.2]
    · cases h
  · cases h

theorem escapeArgument_append {letter : Char} {t arg rest : Text}
    (h : escapeArgument letter t = some (arg, rest)) : arg ++ rest = t := by
  unfold escapeArgument at h
  split at h
  · exact splitProperty_append h
  split at h
  · exact splitHex_append h
  split at h
  · exact splitHex_append h
  split at h
  · exact splitControl_append h
  · simp at h; simp [← h.1, ← h.2]

theorem escapeArgument_length {letter : Char} {t arg rest : Text}
    (h : escapeArgument letter t = some (arg, rest)) : rest.length ≤ t.length := by
  simp [← escapeArgument_append h]

end RegexAnatomy
