/-! A stretch of a pattern, as byte offsets. -/

namespace RegexAnatomy

/-- From `start` up to, but not including, `stop`. -/
structure Span where
  start : Nat
  stop : Nat
  deriving DecidableEq

def Span.length (s : Span) : Nat := s.stop - s.start

def Span.isEmpty (s : Span) : Bool := s.start = s.stop

theorem Span.length_eq_zero_of_isEmpty {s : Span} (h : s.isEmpty = true) : s.length = 0 := by
  simp [isEmpty, length] at h ⊢; omega

end RegexAnatomy
