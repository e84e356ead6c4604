import RegexAnatomy.Text

/-! Why a pattern is refused. Scanning works on the text that is still unread,
so it reports a `Fault` with the text from the offending place on; the position
in the whole pattern is worked out once, where the scan is driven. -/

namespace RegexAnatomy

inductive Malformation where
  | danglingQuantifier (first : Char)
  | unclosedClass
  | misplacedSubtraction
  | badEscape (letter : Char)
  | trailingBackslash
  | unclosedGroup
  | unmatchedClose
  | badGroupName (name : Text)
  | unknownConstruct
  | unclosedComment
  | commentAsTest
  deriving DecidableEq

inductive PatternError where
  /-- The text at `position` cannot be read. -/
  | malformed (position : Nat) (cause : Malformation)
  /-- A reference to a group that the pattern does not have; `position` is just past it. -/
  | undefinedGroup (position : Nat) (group : Text)
  /-- A numeric escape that is neither a reference nor octal; `position` is past its backslash. -/
  | badNumericEscape (position : Nat) (first : Char)
  /-- A conditional, opened at `position`, with more than two branches. -/
  | tooManyBranches (position : Nat)
  /-- A state that no pattern leads to. -/
  | brokenInvariant (detail : String)
  deriving DecidableEq

def PatternError.position : PatternError → Option Nat
  | .malformed p _ | .undefinedGroup p _ | .badNumericEscape p _ | .tooManyBranches p => some p
  | .brokenInvariant _ => none

def Malformation.message : Malformation → String
  | .danglingQuantifier c => "quantifier '" ++ c.toString ++ "' following nothing"
  | .unclosedClass => "unclosed character class"
  | .misplacedSubtraction => "a subtraction must be the last element in a character class"
  | .badEscape c => "invalid escape sequence '\\" ++ c.toString ++ "'"
  | .trailingBackslash => "illegal \\ at end of pattern"
  | .unclosedGroup => "not enough )'s"
  | .unmatchedClose => "too many )'s"
  | .badGroupName name => "invalid group name '" ++ String.ofList name ++ "'"
  | .unknownConstruct => "unrecognized grouping construct"
  | .unclosedComment => "unterminated (?#...) comment"
  | .commentAsTest => "alternation conditions cannot be comments"

def PatternError.message : PatternError → String
  | .malformed p cause => "malformed pattern at position " ++ toString p ++ ": " ++ cause.message
  | .undefinedGroup p group =>
    "reference to undefined group '" ++ String.ofList group ++ "' at position " ++ toString p
  | .badNumericEscape p c =>
    "unrecognized escape sequence '\\" ++ c.toString ++ "' at position " ++ toString p
  | .tooManyBranches p => "too many | in conditional construct at position " ++ toString p
  | .brokenInvariant detail => "internal invariant violated: " ++ detail

inductive Fault where
  | malformed (cause : Malformation) (found : Text)
  | noLiteral (found : Text)

def Fault.found : Fault → Text
  | .malformed _ found | .noLiteral found => found

/-- The error for a fault met in the text `unread`, which starts at `position`. -/
def Fault.locate (position : Nat) (unread : Text) (f : Fault) : PatternError :=
  let place := position + (utf8Length unread - utf8Length f.found)
  match f with
  | .malformed cause _ => .malformed place cause
  | .noLiteral _ => .brokenInvariant ("no literal at position " ++ toString place)

end RegexAnatomy
