import RegexAnatomy.InlineOptions
import RegexAnatomy.Node

/-! Portable conditionals. Some engines let an inline option set in a branch of a
conditional last into the branch after it, others end it with its branch, and
some refuse options as a test. Groups around the parts that set options make all
of them agree, provided that the second branch sets again what the first one
left set. Such a change is planned for each conditional, and the plan is then
either recorded in the node or carried out on the tree. -/

namespace RegexAnatomy

inductive Style where
  /-- The tree keeps its shape, and each conditional records how to write it. -/
  | annotate
  /-- The groups and options become part of the tree. -/
  | restructure
  deriving DecidableEq

def Style.ofNat? : Nat → Option Style
  | 0 => some .annotate
  | 1 => some .restructure
  | _ => none

def unknownStyleMessage (n : Nat) : String :=
  "unknown compatibility style " ++ toString n ++ ", expected 0 (annotate) or 1 (rewrite)"

def Node.isOptionGroup : Node → Bool
  | .sequence _ _ (.construct opener ..) _ => opensOptions opener
  | _ => false

def Node.setsOptions (node : Node) : Bool := node.isAtom .inlineOptions || node.isOptionGroup

/-- The nodes of a branch that stand in no group of the branch's own. -/
def Node.units : Node → List Node
  | .sequence children _ .bare _ => children
  | node => [node]

def Node.branchSetsOptions (branch : Node) : Bool := branch.units.any Node.setsOptions

def Node.optionText? : Node → Option Text
  | .atom text .inlineOptions _ => some text
  | _ => none

/-- The options that a branch leaves set at its end, construct by construct. -/
def Node.branchOptions (branch : Node) : List Text := branch.units.filterMap Node.optionText?

def Node.isEmptyBranch : Node → Bool
  | .atom text .. => text.isEmpty
  | .sequence children quantifier .bare _ => children.isEmpty && quantifier.isEmpty
  | _ => false

def Condition.setsOptions : Condition → Bool
  | .group _ => false
  | .expression test => test.setsOptions

inductive BranchChange where
  | keep
  | group
  /-- A group that sets `options` again at its start. -/
  | reopen (options : Text)
  deriving DecidableEq

structure Plan where
  groupTest : Bool
  groupYes : Bool
  no : BranchChange
  deriving DecidableEq

def Plan.isNeeded (plan : Plan) : Bool := plan.groupTest || plan.groupYes || plan.no ≠ .keep

/-- An empty second branch needs no options set again. -/
def planNo (yes no : Node) : BranchChange :=
  if yes.branchOptions ≠ [] ∧ !no.isEmptyBranch then .reopen (netOptions yes.branchOptions)
  else if no.branchSetsOptions then .group
  else .keep

def planConditional (condition : Condition) (yes : Node) (no : Option Node) : Plan where
  groupTest := condition.setsOptions
  groupYes := yes.branchSetsOptions
  no := (no.map (planNo yes)).getD .keep

/-- Records a plan; what was recorded before and is not in the plan stays. -/
def Plan.record (plan : Plan) (p : Portability) : Portability where
  wrapTest := plan.groupTest || p.wrapTest
  wrapYes := plan.groupYes || p.wrapYes
  wrapNo := plan.no ≠ .keep || p.wrapNo
  noOptions := match plan.no with
    | .reopen options => options
    | _ => p.noOptions

/-- Options before a node; a bare sequence without a quantifier takes them in front. -/
def Node.afterOptions (options : Text) (node : Node) : Node :=
  if options = [] then node
  else match node with
    | .sequence children [] .bare isTest =>
      .sequence (.plain options .inlineOptions :: children) [] .bare isTest
    | node => .concat [.plain options .inlineOptions, node]

def Node.grouped (node : Node) : Node := node.wrapped .nonCapturing

/-- The group around a test is the test now. -/
def Condition.grouped : Condition → Condition
  | .group id => .group id
  | .expression test => .expression ((test.markTest false).grouped.markTest true)

def BranchChange.apply (change : BranchChange) (branch : Node) : Node :=
  match change with
  | .keep => branch
  | .group => branch.grouped
  | .reopen options => (branch.afterOptions options).grouped

def Plan.apply (plan : Plan) (style : Style) (condition : Condition) (yes : Node)
    (no : Option Node) (hasBar testIsConstruct : Bool) (p : Portability) : Node :=
  match style with
  | .annotate => .conditional condition yes no hasBar testIsConstruct (plan.record p)
  | .restructure =>
    .conditional (if plan.groupTest then condition.grouped else condition)
      (if plan.groupYes then yes.grouped else yes) (no.map plan.no.apply) hasBar testIsConstruct p

mutual

/-- Makes every conditional portable, inner ones first, and tells whether any had to change. -/
def Node.portable (style : Style) : Node → Node × Bool
  | .atom text kind isReference => (.atom text kind isReference, false)
  | .sequence children quantifier wrapping isTest =>
    let parts := portableAll style children
    (.sequence parts.1 quantifier wrapping isTest, parts.2)
  | .alternation branches =>
    let parts := portableAll style branches
    (.alternation parts.1, parts.2)
  | .conditional condition yes no hasBar testIsConstruct p =>
    let test := condition.portable style
    let first := yes.portable style
    let second := portableNo style no
    let plan := planConditional test.1 first.1 second.1
    (plan.apply style test.1 first.1 second.1 hasBar testIsConstruct p,
      test.2 || first.2 || second.2 || plan.isNeeded)

def Condition.portable (style : Style) : Condition → Condition × Bool
  | .group id => (.group id, false)
  | .expression test =>
    let part := test.portable style
    (.expression part.1, part.2)

def portableNo (style : Style) : Option Node → Option Node × Bool
  | none => (none, false)
  | some no =>
    let part := no.portable style
    (some part.1, part.2)

def portableAll (style : Style) : List Node → List Node × Bool
  | [] => ([], false)
  | node :: nodes =>
    let part := node.portable style
    let parts := portableAll style nodes
    (part.1 :: parts.1, part.2 || parts.2)

end

theorem Node.render_grouped (node : Node) :
    node.grouped.render = groupedWhen true [] node.render := by
  simp [Node.grouped, Wrapping.nonCapturing, Wrapping.around, groupedWhen]

theorem Node.render_afterOptions (options : Text) (node : Node) :
    (node.afterOptions options).render = options ++ node.render := by
  unfold Node.afterOptions
  split
  next h => simp [h]
  next => split <;> simp [Node.render, Wrapping.around]

theorem BranchChange.render_apply (change : BranchChange) (branch : Node) :
    (change.apply branch).render = match change with
      | .keep => branch.render
      | .group => groupedWhen true [] branch.render
      | .reopen options => groupedWhen true options branch.render := by
  cases change <;>
    simp [BranchChange.apply, Node.render_grouped, Node.render_afterOptions, groupedWhen]

end RegexAnatomy
