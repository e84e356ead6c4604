import RegexAnatomy.Block
import RegexAnatomy.Literal
import RegexAnatomy.Node

/-! How the quantifier of a block is attached to the node of its token. Trivia
before the quantifier stay inside the quantified node, trivia before a lazy mark
stay in front of the mark, and where canonical spelling leaves no quantifier or
no mark they follow the node as leaves. -/

namespace RegexAnatomy

def TriviaKind.atomKind : TriviaKind → AtomKind
  | .inlineComment => .inlineComment
  | .lineComment => .lineComment
  | .blanks => .blanks

def Trivia.node (item : Trivia) : Node := .plain item.text item.kind.atomKind

/-- A quantifier in its canonical spelling, with the nodes around it. -/
structure Suffix where
  /-- Trivia between the node and its quantifier. -/
  before : List Node := []
  quantifier : Text := []
  /-- Trivia that stood before a lazy mark that is gone. -/
  after : List Node := []

def Repetition.suffix (r : Repetition) : Suffix :=
  let before := r.before.map Trivia.node
  let quantifier := canonicalRepetition r.quantifier r.lazyMark.isSome
  match r.lazyMark with
  | none | some [] => { before, quantifier }
  | some items =>
    if quantifier.getLast? = some '?' then
      { before, quantifier := quantifier.dropLast ++ triviaText items ++ ['?'] }
    else { before, quantifier, after := items.map Trivia.node }

def Block.suffix (b : Block) : Suffix := (b.repetition.map Repetition.suffix).getD {}

/-- A node with a suffix: one node, unless no quantifier is left to hold the trivia before it. -/
def quantify (node : Node) (s : Suffix) : List Node :=
  if s.before = [] then [node.quantified s.quantifier]
  else if s.quantifier = [] then node :: s.before
  else [.sequence (node :: s.before) s.quantifier .bare false]

/-- A node with literal text behind it; a quantifier binds to the last unit of that text. -/
def quantifyTail (head : Node) (tail : Text) (s : Suffix) : List Node :=
  if tail = [] then quantify head s
  else if s.quantifier = [] then head :: .literal tail :: s.before
  else
    let (start, last) := splitLastUnit tail
    head :: (if start = [] then [] else [.literal start]) ++ quantify (.literal last) s

theorem renderAll_quantify (node : Node) (s : Suffix) :
    renderAll (quantify node s) = node.render ++ renderAll s.before ++ s.quantifier := by
  unfold quantify
  split
  next h => simp [h]
  next =>
    split
    next h => simp [h]
    next => simp [Node.render, Wrapping.around]

theorem renderAll_quantifyTail (head : Node) (tail : Text) (s : Suffix) :
    renderAll (quantifyTail head tail s) =
      head.render ++ tail ++ renderAll s.before ++ s.quantifier := by
  unfold quantifyTail
  split
  next h => simp [h, renderAll_quantify]
  next =>
    split
    next h => simp [h]
    next =>
      have hl := splitLastUnit_append tail
      by_cases hs : (splitLastUnit tail).1 = []
      · rw [hs] at hl; simp at hl; simp [hs, hl, renderAll_quantify]
      · simp [hs, renderAll_quantify, ← List.append_assoc, hl]

end RegexAnatomy
