import RegexAnatomy.Group.Table

/-! The tree of a pattern, and its text. Leaves keep their text as written, and
a group keeps its opener, so the text of the tree is put together from the nodes
without knowing how the pattern was read. -/

namespace RegexAnatomy

inductive AtomKind where
  | literal
  | anchor
  | charClass
  /-- A reference to a group, or a numeric escape that turned out to be octal. -/
  | backreference
  | inlineOptions
  | inlineComment
  | lineComment
  | blanks
  deriving DecidableEq

inductive Wrapping where
  | bare
  | bracket (capture : Option Nat)
  | construct (opener : Text) (capture balance : Option GroupId)
  deriving DecidableEq

def Wrapping.nonCapturing : Wrapping := .construct ['(', '?', ':'] none none

structure Portability where
  wrapTest : Bool := false
  wrapYes : Bool := false
  wrapNo : Bool := false
  /-- Options set again at the start of the wrapped second branch. -/
  noOptions : Text := []
  deriving DecidableEq

mutual

inductive Node where
  /-- A leaf; `isReference` tells references from octal escapes and is absent elsewhere. -/
  | atom (text : Text) (kind : AtomKind) (isReference : Option Bool)
  /-- Nodes one after another; the quantifier is empty when there is none. -/
  | sequence (children : List Node) (quantifier : Text) (wrapping : Wrapping) (isTest : Bool)
  | alternation (branches : List Node)
  /-- A test with two branches. `hasBar` tells whether a bar is written, `testIsConstruct` whether
  the test brings its own grouping construct. -/
  | conditional (condition : Condition) (yes : Node) (no : Option Node)
      (hasBar testIsConstruct : Bool) (portability : Portability)

inductive Condition where
  | group (id : GroupId)
  | expression (test : Node)

end

namespace Node

def plain (text : Text) (kind : AtomKind) : Node := .atom text kind none

def literal (text : Text) : Node := .plain text .literal

def empty : Node := .literal []

def reference (text : Text) (isReference : Bool) : Node :=
  .atom text .backreference (some isReference)

def concat (children : List Node) : Node := .sequence children [] .bare false

/-- Puts a group around a node. A bare sequence without a quantifier takes the group itself. -/
def wrapped (wrapping : Wrapping) : Node → Node
  | .sequence children [] .bare isTest => .sequence children [] wrapping isTest
  | node => .sequence [node] [] wrapping false

/-- Attaches a quantifier. A group that has none takes it itself. -/
def quantified (quantifier : Text) (node : Node) : Node :=
  if quantifier = [] then node
  else match node with
    | .sequence children [] (.bracket capture) isTest =>
      .sequence children quantifier (.bracket capture) isTest
    | .sequence children [] (.construct opener capture balance) isTest =>
      .sequence children quantifier (.construct opener capture balance) isTest
    | node => .sequence [node] quantifier .bare false

def isAtom (kind : AtomKind) : Node → Bool
  | .atom _ k _ => k = kind
  | _ => false

def markTest (isTest : Bool) : Node → Node
  | .sequence children quantifier wrapping _ => .sequence children quantifier wrapping isTest
  | node => node

def children : Node → List Node
  | .atom .. => []
  | .sequence children .. => children
  | .alternation branches => branches
  | .conditional (.group _) yes no .. => yes :: no.toList
  | .conditional (.expression test) yes no .. => test :: yes :: no.toList

end Node

def Wrapping.around (w : Wrapping) (text : Text) : Text :=
  match w with
  | .bare => text
  | .bracket _ => '(' :: text ++ [')']
  | .construct opener .. => opener ++ text ++ [')']

def groupedWhen (wrap : Bool) (options text : Text) : Text :=
  if wrap then ['(', '?', ':'] ++ options ++ text ++ [')'] else text

mutual

def Node.render : Node → Text
  | .atom text .. => text
  | .sequence children quantifier wrapping _ =>
    wrapping.around (renderAll children) ++ quantifier
  | .alternation branches => renderBranches branches
  | .conditional condition yes no hasBar _ p =>
    ['(', '?'] ++ condition.render p.wrapTest ++ groupedWhen p.wrapYes [] yes.render ++
      (if hasBar then ['|'] else []) ++
      (match no with
        | none => []
        | some no => groupedWhen p.wrapNo p.noOptions no.render) ++
      [')']

def Condition.render (wrap : Bool) : Condition → Text
  | .group id => '(' :: id.token ++ [')']
  | .expression test => groupedWhen wrap [] test.render

def renderAll : List Node → Text
  | [] => []
  | node :: nodes => node.render ++ renderAll nodes

def renderBranches : List Node → Text
  | [] => []
  | [branch] => branch.render
  | branch :: branches => branch.render ++ '|' :: renderBranches branches

end

@[simp] theorem renderAll_nil : renderAll [] = [] := rfl

@[simp] theorem renderAll_cons (node : Node) (nodes : List Node) :
    renderAll (node :: nodes) = node.render ++ renderAll nodes := rfl

@[simp] theorem renderAll_append (s t : List Node) :
    renderAll (s ++ t) = renderAll s ++ renderAll t := by
  induction s with
  | nil => rfl
  | cons node s ih => simp [ih]

namespace Node

@[simp] theorem render_plain (text : Text) (kind : AtomKind) :
    (plain text kind).render = text := rfl

@[simp] theorem render_literal (text : Text) : (literal text).render = text := rfl

@[simp] theorem render_reference (text : Text) (isReference : Bool) :
    (reference text isReference).render = text := rfl

@[simp] theorem render_concat (children : List Node) :
    (concat children).render = renderAll children := by
  simp [concat, render, Wrapping.around]

/-- Whether or not a sequence takes the group itself, the text is that of the node in the group. -/
@[simp] theorem render_wrapped (wrapping : Wrapping) (node : Node) :
    (node.wrapped wrapping).render = wrapping.around node.render := by
  unfold wrapped
  split <;> simp [render, Wrapping.around]

@[simp] theorem render_quantified (quantifier : Text) (node : Node) :
    (node.quantified quantifier).render = node.render ++ quantifier := by
  unfold quantified
  split
  next h => simp [h]
  next => split <;> simp [render, Wrapping.around]

@[simp] theorem render_markTest (isTest : Bool) (node : Node) :
    (node.markTest isTest).render = node.render := by
  cases node <;> rfl

end Node

end RegexAnatomy
