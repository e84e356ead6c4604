import RegexAnatomy.Text

/-! Quantifiers as they are written, and their shortest spelling. A count
that always is one disappears, a range that a single sign can say becomes that
sign, equal bounds are written once, and the lazy mark goes with a fixed count. -/

namespace RegexAnatomy

/-- Reads the rest of `{n}`, `{n,}` or `{n,m}` after its brace. -/
def splitBounds (t : Text) : Option (Text × Text) :=
  let least := t.takeWhile Char.isDigit
  if least = [] then none
  else match t.dropWhile Char.isDigit with
    | '}' :: rest => some ('{' :: least ++ ['}'], rest)
    | ',' :: t =>
      let most := t.takeWhile Char.isDigit
      match t.dropWhile Char.isDigit with
      | '}' :: rest => some ('{' :: least ++ ',' :: most ++ ['}'], rest)
      | _ => none
    | _ => none

def splitQuantifier : Text → Option (Text × Text)
  | '*' :: rest => some (['*'], rest)
  | '+' :: rest => some (['+'], rest)
  | '?' :: rest => some (['?'], rest)
  | '{' :: rest => splitBounds rest
  | _ => none

def startsQuantifier (t : Text) : Bool := (splitQuantifier t).isSome

/-- The greatest count that can be written; as an upper bound it stands for none. -/
def unboundedCount : Text := ['2', '1', '4', '7', '4', '8', '3', '6', '4', '7']

/-- The short spelling of `{counts}`, followed by `mark`, the lazy mark or nothing; `none` when
the bounds have no shorter spelling. -/
def shortBounds (counts mark : Text) : Option Text :=
  let least := counts.takeWhile (· ≠ ',')
  match counts.dropWhile (· ≠ ',') with
  | [] => if least = ['1'] then some [] else some ('{' :: least ++ ['}'])
  | _ :: most =>
    if least = ['0'] ∧ (most = [] ∨ most = unboundedCount) then some ('*' :: mark)
    else if least = ['1'] ∧ (most = [] ∨ most = unboundedCount) then some ('+' :: mark)
    else if least = ['0'] ∧ most = ['1'] then some ('?' :: mark)
    else if least = ['1'] ∧ most = ['1'] then some []
    else if least = most then some ('{' :: least ++ ['}'])
    else none

/-- The shortest spelling of a quantifier, which may end in a lazy mark. Text that is not a
braced count stays as it is. -/
def canonicalQuantifier (q : Text) : Text :=
  match q with
  | '{' :: inner =>
    let lazy := inner.getLast? == some '?'
    let braced := if lazy then inner.dropLast else inner
    if braced.getLast? = some '}' then
      (shortBounds braced.dropLast (if lazy then ['?'] else [])).getD q
    else q
  | _ => q

/-- The shortest spelling of a quantifier whose laziness is known apart from its text. -/
def canonicalRepetition (raw : Text) (lazy : Bool) : Text :=
  if raw = [] then []
  else canonicalQuantifier (if lazy then raw ++ ['?'] else raw)

theorem splitBounds_append {t q rest : Text} (h : splitBounds t = some (q, rest)) :
    q ++ rest = '{' :: t := by
  have hd := List.takeWhile_append_dropWhile (p := Char.isDigit) (l := t)
  simp only [splitBounds] at h
  split at h
  · cases h
  split at h
  next hr => simp at h; rw [hr] at hd; simp [← h.1, ← h.2, hd]
  next u hr =>
    have hu := List.takeWhile_append_dropWhile (p := Char.isDigit) (l := u)
    split at h
    next hv =>
      rw [hv] at hu; rw [hr, ← hu] at hd
      simp at h; simp [← h.1, ← h.2, hd]
    next => cases h
  next => cases h

theorem splitQuantifier_append {t q rest : Text} (h : splitQuantifier t = some (q, rest)) :
    q ++ rest = t := by
  unfold splitQuantifier at h
  split at h
  case h_4 => exact splitBounds_append h
  case h_5 => simp at h
  all_goals simp at h; simp [← h.1, ← h.2]

end RegexAnatomy
