import RegexAnatomy.Text

/-! Inline options: the characters of `(?imnsx-imnsx)`, the two options that
change how a pattern is read, and the setting that a list of option constructs
adds up to. -/

namespace RegexAnatomy

def isOptionChar (c : Char) : Bool :=
  ['+', '-', 'i', 'm', 'n', 's', 'x', 'I', 'M', 'N', 'S', 'X'].contains c

def isOptionLetter (c : Char) : Bool := ['i', 'm', 'n', 's', 'x'].contains c.toLower

/-- An opener sets options when its third character, the one after `(?`, is an option character. -/
def opensOptions (opener : Text) : Bool := opener[2]?.any isOptionChar

/-- The options that change how the text is read. -/
structure Mode where
  /-- Blanks and `#` comments carry no meaning (`x`). -/
  freeSpacing : Bool := false
  /-- Plain parentheses do not capture (`n`). -/
  explicitCapture : Bool := false
  deriving DecidableEq

/-- Applies toggles from left to right; `on` is the sign in force at the start. -/
def Mode.applySigned (on : Bool) (m : Mode) : Text → Mode
  | [] => m
  | c :: rest =>
    if c = '+' then m.applySigned true rest
    else if c = '-' then m.applySigned false rest
    else if c.toLower = 'x' then { m with freeSpacing := on }.applySigned on rest
    else if c.toLower = 'n' then { m with explicitCapture := on }.applySigned on rest
    else m.applySigned on rest

def Mode.apply (m : Mode) (options : Text) : Mode := m.applySigned true options

/-- Toggles collected from right to left, so that the first setting met of a letter is the one
that lasts. A letter waits until the sign before it is met. -/
structure Toggles where
  on : Text := []
  off : Text := []
  waiting : Text := []
  seen : Text := []

def Toggles.add (c : Char) (s : Toggles) : Toggles :=
  if c = '+' ∨ c = '?' then { s with on := s.waiting ++ s.on, waiting := [] }
  else if c = '-' then { s with off := s.waiting ++ s.off, waiting := [] }
  else if isOptionLetter c ∧ c.toLower ∉ s.seen then
    { s with waiting := c :: s.waiting, seen := c.toLower :: s.seen }
  else s

/-- A letter that still waits at the start of its construct has no sign and is dropped. -/
def Toggles.addConstruct (construct : Text) (s : Toggles) : Toggles :=
  { construct.foldr Toggles.add s with waiting := [] }

def Toggles.ofConstructs (constructs : List Text) : Toggles :=
  constructs.foldr Toggles.addConstruct {}

/-- The one construct that sets what `constructs` leave set; empty when they set nothing. -/
def netOptions (constructs : List Text) : Text :=
  let s := Toggles.ofConstructs constructs
  if s.on = [] ∧ s.off = [] then []
  else if s.off = [] then ['(', '?'] ++ s.on ++ [')']
  else ['(', '?'] ++ s.on ++ '-' :: s.off ++ [')']

end RegexAnatomy
