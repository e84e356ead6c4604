import RegexAnatomy.Trivia

/-! Literal text is made of units: a plain character, or a backslash with the
character it escapes. A quantifier binds to one unit, so a run of literal text
has to end before the unit that a quantifier follows. -/

namespace RegexAnatomy

/-- Escapes that stand for something else than the escaped character. -/
def isSpecialEscape (c : Char) : Bool :=
  c.isDigit || ['P', 'p', 'k', 'c', 'u', 'x', 'd', 'D', 'w', 'W', 's', 'S', 'A', 'z', 'Z', 'G',
    'b', 'B'].contains c

def isOperator (c : Char) : Bool :=
  ['[', '+', '*', '?', '(', ')', '|', '^', '$'].contains c

def splitUnit (free : Bool) : Text → Option (Text × Text)
  | [] => none
  | ['\\'] => none
  | '\\' :: c :: rest => if isSpecialEscape c then none else some (['\\', c], rest)
  | c :: rest =>
    if isOperator c then none
    else if free && (isBlank c || c = '#') then none
    else some ([c], rest)

theorem splitUnit_append {free : Bool} {t unit rest : Text}
    (h : splitUnit free t = some (unit, rest)) : unit ++ rest = t ∧ unit ≠ [] := by
  unfold splitUnit at h
  split at h
  · cases h
  · cases h
  · split at h
    · cases h
    · simp at h; simp [← h.1, ← h.2]
  · split at h
    · cases h
    split at h
    · cases h
    · simp at h; simp [← h.1, ← h.2]

theorem splitUnit_length {free : Bool} {t unit rest : Text}
    (h : splitUnit free t = some (unit, rest)) : rest.length < t.length := by
  obtain ⟨rfl, hne⟩ := splitUnit_append h
  have := List.length_pos_iff.2 hne
  simp; omega

/-- The longest run of units such that `stop` holds after none of them. -/
def takeUnits (free : Bool) (stop : Text → Bool) (t : Text) : Text × Text :=
  match h : splitUnit free t with
  | none => ([], t)
  | some (unit, rest) =>
    have := splitUnit_length h
    if stop rest then ([], t)
    else
      let (more, after) := takeUnits free stop rest
      (unit ++ more, after)
termination_by t.length

theorem takeUnits_append (free : Bool) (stop : Text → Bool) (t : Text) :
    (takeUnits free stop t).1 ++ (takeUnits free stop t).2 = t := by
  fun_induction takeUnits free stop t with
  | case1 => rfl
  | case2 => rfl
  | case3 t unit rest h hl hs more after he ih =>
    rw [he] at ih
    simp only at ih ⊢
    rw [List.append_assoc, ih, (splitUnit_append h).1]

def splitLastUnit : Text → Text × Text
  | [] => ([], [])
  | '\\' :: c :: rest =>
    if rest = [] then ([], ['\\', c])
    else
      let (before, last) := splitLastUnit rest
      ('\\' :: c :: before, last)
  | c :: rest =>
    if rest = [] then ([], [c])
    else
      let (before, last) := splitLastUnit rest
      (c :: before, last)

theorem splitLastUnit_append (t : Text) : (splitLastUnit t).1 ++ (splitLastUnit t).2 = t := by
  fun_induction splitLastUnit t <;> simp_all

end RegexAnatomy
