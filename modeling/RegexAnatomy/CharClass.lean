import RegexAnatomy.Escape
import RegexAnatomy.PatternError

/-! Character classes `[...]`, with subtractions `-[...]` nested to any depth.
A subtraction must come last in its class, so once an inner class has been read
only a closing bracket may follow, and no scan starts over on what it left. -/

namespace RegexAnatomy

/-- What may come first in a class: a negation, and a closing bracket, which then is literal. -/
def splitClassHead (t : Text) : Text × Text :=
  match t with
  | '^' :: ']' :: rest => (['^', ']'], rest)
  | '^' :: rest => (['^'], rest)
  | ']' :: rest => ([']'], rest)
  | t => ([], t)

theorem splitClassHead_append (t : Text) : (splitClassHead t).1 ++ (splitClassHead t).2 = t := by
  unfold splitClassHead; split <;> simp

theorem splitClassHead_length (t : Text) : (splitClassHead t).2.length ≤ t.length := by
  have h := congrArg List.length (splitClassHead_append t)
  simp at h; omega

/-- Reads the items of a class and its closing bracket; `opened` is the text from its opening
bracket on. -/
def readClassItems (opened t : Text) : Except Fault (Text × Text) :=
  match t with
  | [] => .error (.malformed .unclosedClass opened)
  | ']' :: rest => .ok ([']'], rest)
  | ['\\'] => .error (.malformed .trailingBackslash ['\\'])
  | '\\' :: c :: rest =>
    match h : escapeArgument c rest with
    | none => .error (.malformed (.badEscape c) ('\\' :: c :: rest))
    | some (arg, after) =>
      have := escapeArgument_length h
      match readClassItems opened after with
      | .error fault => .error fault
      | .ok (more, after) => .ok ('\\' :: c :: arg ++ more, after)
  | '-' :: '[' :: rest =>
    have := splitClassHead_length rest
    match readClassItems ('[' :: rest) (splitClassHead rest).2 with
    | .error fault => .error fault
    | .ok (inner, ']' :: after) =>
      .ok ('-' :: '[' :: (splitClassHead rest).1 ++ inner ++ [']'], after)
    | .ok (_, after) => .error (.malformed .misplacedSubtraction after)
  | c :: rest =>
    match readClassItems opened rest with
    | .error fault => .error fault
    | .ok (more, after) => .ok (c :: more, after)
termination_by t.length

/-- Reads a class from the text after its opening bracket. -/
def readClass (t : Text) : Except Fault (Text × Text) :=
  match readClassItems ('[' :: t) (splitClassHead t).2 with
  | .error fault => .error fault
  | .ok (items, rest) => .ok ('[' :: (splitClassHead t).1 ++ items, rest)

theorem readClassItems_append {opened t : Text} :
    ∀ {w rest : Text}, readClassItems opened t = .ok (w, rest) → w ++ rest = t := by
  fun_induction readClassItems opened t with
  | case1 | case3 | case4 | case5 | case7 | case9 | case10 => intro w rest h; cases h
  | case2 => intro w rest h; simp at h; simp [← h.1, ← h.2]
  | case6 opened c t arg after h hl more rest he ih =>
    intro w rest' hw
    simp at hw
    have := ih he
    rw [← hw.1, ← hw.2, ← escapeArgument_append h, ← this]; simp
  | case8 opened t hl inner rest he ih =>
    intro w rest' hw
    simp at hw
    have hs := splitClassHead_append t
    rw [← ih he] at hs
    rw [← hw.1, ← hw.2]; simpa using hs
  | case11 opened c t h1 h2 h3 h4 more rest he ih =>
    intro w rest' hw
    simp at hw
    rw [← hw.1, ← hw.2, ← ih he]; simp

theorem readClass_append {t w rest : Text} (h : readClass t = .ok (w, rest)) :
    w ++ rest = '[' :: t ∧ w ≠ [] := by
  have hs := splitClassHead_append t
  unfold readClass at h
  split at h
  next => cases h
  next items after he =>
    simp at h
    have hi := readClassItems_append he
    rw [← hi] at hs
    rw [← h.1, ← h.2]
    exact ⟨by simpa using hs, by simp⟩

end RegexAnatomy
