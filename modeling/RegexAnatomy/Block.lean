import RegexAnatomy.InlineOptions
import RegexAnatomy.Text.Span
import RegexAnatomy.Trivia

/-! Blocks: a pattern cut into pieces from left to right. A block is one
token, the quantifier behind it, and the trivia around that quantifier; written
out again one after another, the blocks give back the pattern. -/

namespace RegexAnatomy

/-- The opener of a `(?...` group, with the names it declares and releases. -/
structure GroupOpener where
  text : Text
  capture : Option Text := none
  balance : Option Text := none
  deriving DecidableEq

inductive Token where
  /-- A plain `(`, with its number when it captures. -/
  | openParen (capture : Option Nat)
  | openGroup (opener : GroupOpener)
  /-- The `(?` of a conditional; the parenthesis of its test follows. -/
  | openConditional
  | options (text : Text)
  | close
  | bar
  | anchor (text : Text)
  | charClass (text : Text)
  /-- A backslash and digits, with the literal text after them that no quantifier splits off. -/
  | numericEscape (text : Text)
  | namedReference (text name : Text)
  | literal (text : Text)
  /-- Nothing at all: the block holds trivia only. -/
  | layout
  deriving DecidableEq

def Token.text : Token → Text
  | .openParen _ => ['(']
  | .openGroup opener => opener.text
  | .openConditional => ['(', '?']
  | .close => [')']
  | .bar => ['|']
  | .options t | .anchor t | .charClass t | .numericEscape t | .namedReference t _ | .literal t => t
  | .layout => []

structure Repetition where
  /-- Trivia between the token and the quantifier. -/
  before : List Trivia
  quantifier : Text
  /-- Of a lazy quantifier, the trivia before its lazy mark. -/
  lazyMark : Option (List Trivia)
  deriving DecidableEq

def Repetition.text (r : Repetition) : Text :=
  triviaText r.before ++ r.quantifier ++
    match r.lazyMark with
    | none => []
    | some items => triviaText items ++ ['?']

structure Block where
  token : Token
  /-- Where the token stands, or the trivia of a block without one. -/
  span : Span
  repetition : Option Repetition
  /-- Trivia after everything else. -/
  trivia : List Trivia
  deriving DecidableEq

def Block.text (b : Block) : Text :=
  b.token.text ++ (b.repetition.map Repetition.text).getD [] ++ triviaText b.trivia

def readRepetition (free : Bool) (t : Text) :
    Except Fault (Option Repetition × List Trivia × Text) := do
  let (before, rest) ← readTrivia free t
  match splitQuantifier rest with
  | none => .ok (none, before, rest)
  | some (quantifier, rest) =>
    let (after, rest) ← readTrivia free rest
    match rest with
    | '?' :: rest => .ok (some ⟨before, quantifier, some after⟩, [], rest)
    | rest => .ok (some ⟨before, quantifier, none⟩, after, rest)

theorem readRepetition_append {free : Bool} {t rest : Text} {repetition : Option Repetition}
    {items : List Trivia} (h : readRepetition free t = .ok (repetition, items, rest)) :
    (repetition.map Repetition.text).getD [] ++ triviaText items ++ rest = t := by
  unfold readRepetition at h
  match hb : readTrivia free t with
  | .error _ => rw [hb] at h; cases h
  | .ok (before, rest₁) =>
    rw [hb] at h
    have hb := readTrivia_append hb
    simp only [bind, Except.bind] at h
    split at h
    next => simp at h; obtain ⟨rfl, rfl, rfl⟩ := h; simpa using hb
    next quantifier rest₂ hq =>
      have hq := splitQuantifier_append hq
      match ha : readTrivia free rest₂ with
      | .error _ => rw [ha] at h; cases h
      | .ok (after, rest₃) =>
        rw [ha] at h
        have ha := readTrivia_append ha
        simp only at h
        subst hb; subst hq; subst ha
        split at h <;> simp at h <;> obtain ⟨rfl, rfl, rfl⟩ := h <;>
          simp [Repetition.text, triviaText]

end RegexAnatomy
