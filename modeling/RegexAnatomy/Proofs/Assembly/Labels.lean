import RegexAnatomy.Proofs.Assembly.Conditionals
import RegexAnatomy.Proofs.Portable.Plan

/-! Labels on the nodes of a tree. A label is what a node says on its own: as an atom,
by its group syntax, or by naming the group that it tests. Putting nodes together,
quantifying, wrapping and marking them leaves their labels as they are and in order,
and so does making a tree portable; only parentheses bring labels of their own. -/

namespace RegexAnatomy

/-- The group syntax decides for a sequence, and the group tested, if there is one, for a
conditional. Bare sequences, the syntax that portability adds, and atoms that are no references have
no label. -/
structure Labelling {α : Type} (f : Node → Option α) : Prop where
  plain : ∀ text kind, f (.plain text kind) = none
  sequence : ∀ children quantifier wrapping isTest,
    f (.sequence children quantifier wrapping isTest) = f (.sequence [] [] wrapping false)
  bare : f (.sequence [] [] .bare false) = none
  nonCapturing : f (.sequence [] [] .nonCapturing false) = none
  alternation : ∀ branches, f (.alternation branches) = none
  group : ∀ id yes no hasBar testIsConstruct p,
    f (.conditional (.group id) yes no hasBar testIsConstruct p) =
      f (.conditional (.group id) .empty none false false {})
  expression : ∀ test yes no hasBar testIsConstruct p,
    f (.conditional (.expression test) yes no hasBar testIsConstruct p) =
      f (.conditional (.expression .empty) .empty none false false {})

section Labels

variable {α : Type} (f : Node → Option α)

def Node.labels (tree : Node) : List α := tree.subtrees.filterMap f

def Wrapping.labels (wrapping : Wrapping) : List α := (f (.sequence [] [] wrapping false)).toList

def Condition.labels : Condition → List α
  | .group id => (f (.conditional (.group id) .empty none false false {})).toList
  | .expression test =>
    (f (.conditional (.expression .empty) .empty none false false {})).toList ++ test.labels f

end Labels

/-- A tree in pre-order is its root and then its direct parts in pre-order. -/
theorem Node.subtrees_eq (node : Node) :
    node.subtrees = node :: node.children.flatMap Node.subtrees := by
  cases node with
  | atom => rfl
  | sequence | alternation => simp [Node.subtrees, Node.children, subtreesAll_eq]
  | conditional condition yes no =>
    cases condition <;> cases no <;>
      simp [Node.subtrees, Node.children, Condition.subtrees, subtreesNo]

theorem Node.labels_eq {α : Type} (f : Node → Option α) (node : Node) :
    node.labels f = (f node).toList ++ node.children.flatMap (Node.labels f) := by
  rw [Node.labels, Node.subtrees_eq, List.filterMap_cons, List.filterMap_flatMap]
  cases f node <;> rfl

section Tree

variable {α : Type} {f : Node → Option α} (hf : Labelling f)
include hf

theorem labels_plain (text : Text) (kind : AtomKind) : (Node.plain text kind).labels f = [] := by
  rw [Node.labels_eq, hf.plain]
  rfl

theorem labels_sequence (children : List Node) (quantifier : Text) (wrapping : Wrapping)
    (isTest : Bool) : (Node.sequence children quantifier wrapping isTest).labels f =
      wrapping.labels f ++ children.flatMap (Node.labels f) := by
  rw [Node.labels_eq, hf.sequence]
  rfl

theorem labels_bare : Wrapping.bare.labels f = [] := congrArg Option.toList hf.bare

theorem labels_alternation (branches : List Node) :
    (Node.alternation branches).labels f = branches.flatMap (Node.labels f) := by
  rw [Node.labels_eq, hf.alternation]
  rfl

theorem labels_conditional (condition : Condition) (yes : Node) (no : Option Node)
    (hasBar testIsConstruct : Bool) (p : Portability) :
    (Node.conditional condition yes no hasBar testIsConstruct p).labels f =
      condition.labels f ++ yes.labels f ++ no.toList.flatMap (Node.labels f) := by
  rw [Node.labels_eq]
  cases condition with
  | group => simp [hf.group _ yes no, Node.children, Condition.labels]
  | expression test => simp [hf.expression test yes no, Node.children, Condition.labels]

theorem labels_trivia (items : List Trivia) :
    (items.map Trivia.node).flatMap (Node.labels f) = [] := by
  simp [List.flatMap_map, Trivia.node, labels_plain hf]

theorem labels_wrapped (wrapping : Wrapping) (node : Node) :
    (node.wrapped wrapping).labels f = wrapping.labels f ++ node.labels f := by
  unfold Node.wrapped
  split <;> simp [labels_sequence hf, labels_bare hf]

theorem labels_quantified (quantifier : Text) (node : Node) :
    (node.quantified quantifier).labels f = node.labels f := by
  unfold Node.quantified
  split
  · rfl
  · split <;> simp [labels_sequence hf, labels_bare hf]

theorem labels_markTest (isTest : Bool) (node : Node) :
    (node.markTest isTest).labels f = node.labels f := by
  cases node with
  | sequence => simp [Node.markTest, labels_sequence hf]
  | _ => rfl

theorem labels_branchNode (branch : List Node) :
    (branchNode branch).labels f = branch.flatMap (Node.labels f) := by
  unfold branchNode
  split
  · exact labels_plain hf [] .literal
  · simp
  · simp [Node.concat, labels_sequence hf, labels_bare hf]

theorem labels_bodyNode (branches : List (List Node)) :
    (bodyNode branches).labels f = branches.flatMap (·.flatMap (Node.labels f)) := by
  unfold bodyNode
  split
  · simp [labels_branchNode hf]
  · simp [labels_alternation hf, List.flatMap_map, labels_branchNode hf]

theorem labels_wrapped_bodyNode (wrapping : Wrapping) (branches : List (List Node)) :
    ((bodyNode branches).wrapped wrapping).labels f =
      wrapping.labels f ++ branches.flatMap (·.flatMap (Node.labels f)) := by
  rw [labels_wrapped hf, labels_bodyNode hf]

theorem labels_quantify (node : Node) (b : Block) :
    (quantify node b.suffix).flatMap (Node.labels f) = node.labels f := by
  obtain ⟨items, hb⟩ := b.suffix_before
  unfold quantify
  split
  · simp [labels_quantified hf]
  · split <;> simp [hb, labels_trivia hf, labels_sequence hf, labels_bare hf]

theorem labels_quantifyTail (head : Node) (tail : Text) (b : Block) :
    (quantifyTail head tail b.suffix).flatMap (Node.labels f) = head.labels f := by
  have literal (text : Text) : (Node.literal text).labels f = [] := labels_plain hf text .literal
  obtain ⟨items, hb⟩ := b.suffix_before
  unfold quantifyTail
  split
  · exact labels_quantify hf head b
  split
  · simp [hb, literal, labels_trivia hf]
  · have hstart : (if (splitLastUnit tail).1 = [] then []
        else [Node.literal (splitLastUnit tail).1]).flatMap (Node.labels f) = [] := by
      split <;> simp [literal]
    simp [hstart, labels_quantify hf, literal]

theorem labels_loose (b : Block) : b.loose.flatMap (Node.labels f) = [] := by
  obtain ⟨items, hl⟩ := b.loose_eq_trivia
  rw [hl, labels_trivia hf]

/-- Leaves have no label if no atom has one. -/
theorem labels_yields (hatom : ∀ text kind isReference, f (.atom text kind isReference) = none)
    {g : GroupTable} {b : Block} {nodes : List Node} (h : b.Yields g nodes) (hr : b.Regular) :
    nodes.flatMap (Node.labels f) = [] := by
  have atom (text : Text) (kind : AtomKind) (isReference : Option Bool) :
      (Node.atom text kind isReference).labels f = [] := by
    rw [Node.labels_eq, hatom]
    rfl
  rcases h.cases hr with ⟨-, rfl⟩ | ⟨_, -, rfl⟩ | ⟨_, _, _, _, -, -, -, -, rfl⟩
  · rfl
  · simp [Node.plain, atom]
  · rw [labels_quantifyTail hf, atom]

/-- The labels of a conditional are those of what it tests and of its branches. -/
theorem labels_conditional_node {g : GroupTable} {start : Nat} {level : Level} {node : Node}
    (h : Opening.conditional.node g start level = .ok node) :
    ∃ test yes no condition, level.branches = (test :: yes) :: Option.toList no ∧
      testCondition g start test = .ok condition ∧
      node.labels f = condition.labels f ++ yes.flatMap (Node.labels f) ++
        no.toList.flatMap (·.flatMap (Node.labels f)) := by
  obtain ⟨test, yes, no, hlevel, h⟩ := conditional_opening_eq_ok.1 h
  obtain ⟨condition, hcondition, rfl⟩ := conditionalNode_eq_ok.1 h
  refine ⟨test, yes, no, condition, hlevel, hcondition, ?_⟩
  cases no <;> simp [labels_conditional hf, labels_branchNode hf]

end Tree

section Portable

variable {α : Type} {f : Node → Option α} (hf : Labelling f)
include hf

theorem labels_grouped (node : Node) : node.grouped.labels f = node.labels f := by
  have hwrapping : Wrapping.nonCapturing.labels f = [] := congrArg Option.toList hf.nonCapturing
  rw [Node.grouped, labels_wrapped hf, hwrapping, List.nil_append]

theorem labels_afterOptions (options : Text) (node : Node) :
    (node.afterOptions options).labels f = node.labels f := by
  unfold Node.afterOptions
  split
  · rfl
  · split <;>
      simp [Node.concat, labels_sequence hf, labels_bare hf, labels_plain hf]

theorem labels_branchChange (change : BranchChange) (branch : Node) :
    (change.apply branch).labels f = branch.labels f := by
  cases change with
  | keep => rfl
  | group => exact labels_grouped hf branch
  | reopen options => rw [BranchChange.apply, labels_grouped hf, labels_afterOptions hf]

theorem labels_conditionGrouped (condition : Condition) :
    condition.grouped.labels f = condition.labels f := by
  cases condition with
  | group => rfl
  | expression =>
    simp [Condition.grouped, Condition.labels, labels_markTest hf, labels_grouped hf]

theorem labels_planApply (style : Style) (plan : Plan) (condition : Condition) (yes : Node)
    (no : Option Node) (hasBar testIsConstruct : Bool) (p : Portability) :
    (plan.apply style condition yes no hasBar testIsConstruct p).labels f =
      condition.labels f ++ yes.labels f ++ no.toList.flatMap (Node.labels f) := by
  cases style with
  | annotate => simp [Plan.apply, labels_conditional hf]
  | restructure =>
    have hcondition : (if plan.groupTest then condition.grouped else condition).labels f =
        condition.labels f := by
      split
      · exact labels_conditionGrouped hf condition
      · rfl
    have hyes : (if plan.groupYes then yes.grouped else yes).labels f = yes.labels f := by
      split
      · exact labels_grouped hf yes
      · rfl
    cases no <;>
      simp [Plan.apply, labels_conditional hf, hcondition, hyes, labels_branchChange hf]

/-- Making conditionals portable adds no label and moves none. -/
theorem labels_portable (style : Style) (node : Node) :
    (node.portable style).1.labels f = node.labels f := by
  have all {nodes : List Node} (h : ∀ n ∈ nodes, (n.portable style).1.labels f = n.labels f) :
      (nodes.map fun n => (n.portable style).1).flatMap (Node.labels f) =
        nodes.flatMap (Node.labels f) := by
    rw [List.flatMap_map, List.flatMap_def, List.flatMap_def, List.map_congr_left h]
  induction node using Node.induction with
  | atom => rfl
  | sequence children quantifier wrapping isTest ih => simp [labels_sequence hf, all ih]
  | alternation branches ih => simp [labels_alternation hf, all ih]
  | conditional condition yes no hasBar testIsConstruct p iht ihy ihn =>
    have hcondition : (condition.portable style).1.labels f = condition.labels f := by
      cases condition with
      | group => rfl
      | expression test => rw [Condition.portable, Condition.labels, iht test rfl, Condition.labels]
    have hno : (no.map fun n => (n.portable style).1).toList.flatMap (Node.labels f) =
        no.toList.flatMap (Node.labels f) := by
      cases no with
      | none => rfl
      | some n => simp [ihn n rfl]
    rw [portable_conditional, labels_planApply hf, labels_conditional hf, hcondition, ihy, hno]

end Portable

end RegexAnatomy
