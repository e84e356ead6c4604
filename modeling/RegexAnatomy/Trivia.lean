import RegexAnatomy.PatternError
import RegexAnatomy.Quantifier

/-! Trivia: the comments and the ignored blanks of a pattern. They match
nothing, but they are kept, so that a pattern can be written back as it was. -/

namespace RegexAnatomy

inductive TriviaKind where
  /-- An inline comment, `(?#...)`. -/
  | inlineComment
  /-- A comment from `#` to the end of its line, in free spacing only. -/
  | lineComment
  /-- A run of blanks, in free spacing only. -/
  | blanks
  deriving DecidableEq

structure Trivia where
  kind : TriviaKind
  text : Text
  deriving DecidableEq

def triviaText (items : List Trivia) : Text := items.flatMap Trivia.text

def isBlank (c : Char) : Bool := [' ', '\t', '\r', '\n', '\x0c'].contains c

def isLineEnd (c : Char) : Bool := c = '\r' ∨ c = '\n'

/-- The blanks or the line comment that the text starts with, when spacing is free. -/
def splitSpacing (t : Text) : Option (Trivia × Text) :=
  if t.takeWhile isBlank ≠ [] then some (⟨.blanks, t.takeWhile isBlank⟩, t.dropWhile isBlank)
  else match t with
    | '#' :: rest =>
      some (⟨.lineComment, '#' :: rest.takeWhile (! isLineEnd ·)⟩, rest.dropWhile (! isLineEnd ·))
    | _ => none

def splitTrivia (free : Bool) (t : Text) : Option (Trivia × Text) :=
  match t with
  | '(' :: '?' :: '#' :: inside =>
    match inside.dropWhile (· ≠ ')') with
    | ')' :: rest =>
      some (⟨.inlineComment, '(' :: '?' :: '#' :: inside.takeWhile (· ≠ ')') ++ [')']⟩, rest)
    | _ => none
  | t => if free then splitSpacing t else none

theorem splitSpacing_append {t rest : Text} {item : Trivia}
    (h : splitSpacing t = some (item, rest)) : item.text ++ rest = t ∧ item.text ≠ [] := by
  unfold splitSpacing at h
  split at h
  next hb =>
    simp at h; obtain ⟨rfl, rfl⟩ := h
    exact ⟨List.takeWhile_append_dropWhile, hb⟩
  next =>
    split at h
    next r =>
      simp only [Option.some.injEq, Prod.mk.injEq] at h; obtain ⟨rfl, rfl⟩ := h
      exact ⟨by simp [List.takeWhile_append_dropWhile], by simp⟩
    next => cases h

theorem splitTrivia_append {free : Bool} {t rest : Text} {item : Trivia}
    (h : splitTrivia free t = some (item, rest)) : item.text ++ rest = t ∧ item.text ≠ [] := by
  unfold splitTrivia at h
  split at h
  next inside =>
    have hd := List.takeWhile_append_dropWhile (p := (· ≠ ')')) (l := inside)
    split at h
    next hr =>
      simp only [Option.some.injEq, Prod.mk.injEq] at h; obtain ⟨rfl, rfl⟩ := h
      rw [hr] at hd
      exact ⟨by simpa using hd, by simp⟩
    next => cases h
  next =>
    split at h
    next => exact splitSpacing_append h
    next => cases h

theorem splitTrivia_length {free : Bool} {t rest : Text} {item : Trivia}
    (h : splitTrivia free t = some (item, rest)) : rest.length < t.length := by
  obtain ⟨rfl, hne⟩ := splitTrivia_append h
  have := List.length_pos_iff.2 hne
  simp; omega

def takeTrivia (free : Bool) (t : Text) : List Trivia × Text :=
  match h : splitTrivia free t with
  | none => ([], t)
  | some (item, rest) =>
    have := splitTrivia_length h
    let (more, after) := takeTrivia free rest
    (item :: more, after)
termination_by t.length

def startsComment : Text → Bool
  | '(' :: '?' :: '#' :: _ => true
  | _ => false

/-- All the trivia that the text starts with. A comment that is never closed is a fault. -/
def readTrivia (free : Bool) (t : Text) : Except Fault (List Trivia × Text) :=
  let (items, rest) := takeTrivia free t
  if startsComment rest then .error (.malformed .unclosedComment rest) else .ok (items, rest)

/-- A quantifier comes first, or after trivia only. -/
def quantifierFollows (free : Bool) (t : Text) : Bool := startsQuantifier (takeTrivia free t).2

theorem takeTrivia_append (free : Bool) (t : Text) :
    triviaText (takeTrivia free t).1 ++ (takeTrivia free t).2 = t := by
  fun_induction takeTrivia free t with
  | case1 => simp [triviaText]
  | case2 t item rest h hl more after he ih =>
    simp [he, triviaText] at ih ⊢
    rw [ih, (splitTrivia_append h).1]

theorem text_ne_nil_of_mem_takeTrivia {free : Bool} {t : Text} {item : Trivia}
    (h : item ∈ (takeTrivia free t).1) : item.text ≠ [] := by
  fun_induction takeTrivia free t with
  | case1 => cases h
  | case2 t item rest hs hl more after he ih =>
    rw [he] at ih
    rcases List.mem_cons.1 h with rfl | h
    · exact (splitTrivia_append hs).2
    · exact ih h

theorem readTrivia_append {free : Bool} {t rest : Text} {items : List Trivia}
    (h : readTrivia free t = .ok (items, rest)) : triviaText items ++ rest = t := by
  have ht := takeTrivia_append free t
  simp only [readTrivia] at h
  split at h
  · cases h
  · simp only [Except.ok.injEq, Prod.mk.injEq] at h
    rw [← h.1, ← h.2, ht]

theorem triviaText_ne_nil_of_readTrivia {free : Bool} {t rest : Text} {items : List Trivia}
    (h : readTrivia free t = .ok (items, rest)) (hne : items ≠ []) : triviaText items ≠ [] := by
  obtain ⟨item, hm⟩ := List.exists_mem_of_ne_nil items hne
  have hitem : item.text ≠ [] := by
    simp only [readTrivia] at h
    split at h <;> cases h
    exact text_ne_nil_of_mem_takeTrivia hm
  exact fun hnil => hitem (List.flatMap_eq_nil_iff.1 hnil item hm)

end RegexAnatomy
