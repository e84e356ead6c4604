import RegexAnatomy.Proofs.Assembly.Conditionals
import RegexAnatomy.Proofs.Portable.Plan

/-! The two styles of making a tree portable write the same text. A plan does not
depend on the style, and a part that is recorded to be grouped is written as the
part in the group; what was recorded before could be written too, so the trees
start without records, as the trees of patterns do. -/

namespace RegexAnatomy

def Node.recorded : Node → Portability
  | .conditional _ _ _ _ _ p => p
  | _ => {}

mutual

def Node.withoutRecords : Node → Node
  | .atom text kind isReference => .atom text kind isReference
  | .sequence children quantifier wrapping isTest =>
    .sequence (withoutRecordsAll children) quantifier wrapping isTest
  | .alternation branches => .alternation (withoutRecordsAll branches)
  | .conditional condition yes no hasBar testIsConstruct _ =>
    .conditional condition.withoutRecords yes.withoutRecords (withoutRecordsNo no) hasBar
      testIsConstruct {}

def Condition.withoutRecords : Condition → Condition
  | .group id => .group id
  | .expression test => .expression test.withoutRecords

def withoutRecordsNo : Option Node → Option Node
  | none => none
  | some no => some no.withoutRecords

def withoutRecordsAll : List Node → List Node
  | [] => []
  | node :: nodes => node.withoutRecords :: withoutRecordsAll nodes

end

theorem withoutRecordsAll_eq (nodes : List Node) :
    withoutRecordsAll nodes = nodes.map Node.withoutRecords := by
  induction nodes with
  | nil => rfl
  | cons node nodes ih => simp [withoutRecordsAll, ih]

theorem withoutRecordsNo_eq (no : Option Node) :
    withoutRecordsNo no = no.map Node.withoutRecords := by
  cases no <;> rfl

theorem treeHom_withoutRecords : TreeHom Node.withoutRecords where
  map_atom _ _ _ := rfl
  map_sequence _ _ _ _ := by rw [Node.withoutRecords, withoutRecordsAll_eq]
  map_alternation _ := by rw [Node.withoutRecords, withoutRecordsAll_eq]
  map_conditional _ _ _ _ _ _ := ⟨_, _, _, _, _, _, rfl⟩

theorem Node.withoutRecords_of_unrecorded {tree : Node} (h : tree.Every (·.recorded = {})) :
    tree.withoutRecords = tree := by
  refine treeHom_withoutRecords.congr .id (fun condition yes no hasBar testIsConstruct p hp ht hy hn
    => ?_) h
  have hc' : condition.withoutRecords = condition := by
    cases condition with
    | group => rfl
    | expression test => exact congrArg Condition.expression (ht test rfl)
  have hn' : no.map Node.withoutRecords = no := by
    cases no with
    | none => rfl
    | some n => exact congrArg some (hn n rfl)
  simp only [Node.recorded] at hp
  rw [Node.withoutRecords, withoutRecordsNo_eq, hc', hy, hn', hp]
  rfl

/-- Recording changes records only. -/
theorem withoutRecords_portable_annotate (tree : Node) :
    (tree.portable .annotate).1.withoutRecords = tree.withoutRecords := by
  refine (treeHom_withoutRecords.comp (treeHom_portable .annotate)).congr treeHom_withoutRecords
    (fun condition yes no hasBar testIsConstruct p _ ht hy hn => ?_) (Q := fun _ => True)
    fun _ _ => trivial
  have hc : (condition.portable .annotate).1.withoutRecords = condition.withoutRecords := by
    cases condition with
    | group => rfl
    | expression test => exact congrArg Condition.expression (ht test rfl)
  have hn : (no.map fun n => (n.portable .annotate).1).map Node.withoutRecords =
      no.map Node.withoutRecords := by
    cases no with
    | none => rfl
    | some n => exact congrArg some (hn n rfl)
  rw [portable_conditional]
  simp only [Plan.apply, Node.withoutRecords, withoutRecordsNo_eq, hc, hy, hn]

/-- Whether anything has to change is the same in both styles. -/
theorem portable_snd_eq (tree : Node) :
    (tree.portable .annotate).2 = (tree.portable .restructure).2 := by
  induction tree using Node.induction with
  | atom => rfl
  | sequence children quantifier wrapping isTest ih =>
    simpa only [portable_sequence] using any_congr_of_mem ih
  | alternation branches ih => simpa only [portable_alternation] using any_congr_of_mem ih
  | conditional condition yes no hasBar testIsConstruct p iht ihy ihn =>
    have hc : (condition.portable .annotate).2 = (condition.portable .restructure).2 := by
      cases condition with
      | group => rfl
      | expression test => exact iht test rfl
    have hn : (no.any fun n => (n.portable .annotate).2) =
        no.any fun n => (n.portable .restructure).2 := by
      cases no with
      | none => rfl
      | some n => exact ihn n rfl
    simp only [portable_conditional, hc, ihy, hn]

theorem portable_snd_of_style (tree : Node) (style style' : Style) :
    (tree.portable style).2 = (tree.portable style').2 := by
  cases style <;> cases style' <;> simp only [portable_snd_eq]

/-- A conditional is put together without a record. -/
theorem unrecorded_of_readTree {pattern : Text} {tree : Node} {groups : GroupTable}
    (h : readTree pattern = .ok (tree, groups)) : tree.Every (·.recorded = {}) := by
  refine every_of_readTree ?_ ?_ h
  · intro n hn
    cases n with
    | conditional => cases hn
    | _ => rfl
  · intro g inner level start node _ _ hn
    obtain ⟨test, yes, no, -, hn⟩ := conditional_opening_eq_ok.1 hn
    obtain ⟨condition, -, rfl⟩ := conditionalNode_eq_ok.1 hn
    rfl

theorem Condition.render_grouped (condition : Condition) (wrap : Bool) :
    (if wrap then condition.grouped else condition).render false = condition.render wrap := by
  cases condition with
  | group => cases wrap <;> rfl
  | expression test =>
    cases wrap <;> simp [Condition.grouped, Condition.render, Node.render_grouped, groupedWhen]

theorem Node.render_groupedWhen (node : Node) (wrap : Bool) :
    (if wrap then node.grouped else node).render = groupedWhen wrap [] node.render := by
  cases wrap <;> simp [Node.render_grouped, groupedWhen]

theorem BranchChange.render_apply_eq_groupedWhen (change : BranchChange) (branch : Node) :
    (change.apply branch).render =
      groupedWhen (change ≠ .keep) (match change with | .reopen options => options | _ => [])
        branch.render := by
  cases change <;> simp [BranchChange.render_apply, groupedWhen]

/-- A plan that is recorded is written like the same plan carried out. -/
theorem Plan.render_apply (plan : Plan) {c c' : Condition} {yes yes' : Node} {no no' : Option Node}
    (hc : ∀ wrap, c.render wrap = c'.render wrap) (hy : yes.render = yes'.render)
    (hn : no.map Node.render = no'.map Node.render) (hasBar testIsConstruct : Bool) :
    (plan.apply .annotate c yes no hasBar testIsConstruct {}).render =
      (plan.apply .restructure c' yes' no' hasBar testIsConstruct {}).render := by
  simp only [Plan.apply, Plan.record, Node.render_conditional, Bool.or_false,
    Condition.render_grouped, Node.render_groupedWhen, hc, hy]
  congr 2
  cases no <;> cases no' <;> simp at hn
  · rfl
  · simp only [Option.map_some, Option.getD_some, BranchChange.render_apply_eq_groupedWhen, hn]
    rfl

theorem portable_render_eq {tree : Node} (h : tree.Every (·.recorded = {})) :
    (tree.portable .annotate).1.render = (tree.portable .restructure).1.render := by
  refine (treeHom_portable .annotate).render_congr (treeHom_portable .restructure)
    (fun condition yes no hasBar testIsConstruct p hp ht hy hn => ?_) h
  obtain rfl : p = {} := hp
  simp only [portable_conditional]
  refine Plan.render_apply _ ?_ hy ?_ hasBar testIsConstruct
  · cases condition with
    | group => exact fun _ => rfl
    | expression test => exact fun wrap => congrArg (groupedWhen wrap []) (ht test rfl)
  · cases no with
    | none => rfl
    | some n => exact congrArg some (hn n rfl)

/-- A tree made portable in one style or the other is changed in both or in neither, and is written
the same; and the one style changes records only. So a pattern has one portable form. -/
theorem styles_agree :
    (∀ tree : Node, (∀ n ∈ tree.subtrees, n.recorded = {}) →
      (tree.portable .annotate).2 = (tree.portable .restructure).2 ∧
      (tree.portable .annotate).1.render = (tree.portable .restructure).1.render ∧
      (tree.portable .annotate).1.withoutRecords = tree) ∧
    ∀ pattern, portableForm .annotate pattern = portableForm .restructure pattern := by
  refine ⟨fun tree h => ⟨portable_snd_eq tree, portable_render_eq h, ?_⟩, fun pattern => ?_⟩
  · rw [withoutRecords_portable_annotate, Node.withoutRecords_of_unrecorded h]
  · simp only [portableForm, Pattern.read]
    cases hp : readTree pattern with
    | error => rfl
    | ok found =>
      obtain ⟨tree, groups⟩ := found
      have h := unrecorded_of_readTree hp
      simp only [bind, Except.bind, portable_snd_eq, portable_render_eq h]
      rfl

/-- `(?(c)(?i)x|y)`: what the first branch sets has to be set again in the second. -/
def leakingConditional : Node :=
  .conditional (.expression (.sequence [.literal ['c']] [] (.bracket none) true))
    (.concat [.plain ['(', '?', 'i', ')'] .inlineOptions, .literal ['x']])
    (some (.literal ['y'])) true false {}

theorem styles_agree_leakingConditional :
    (∀ n ∈ leakingConditional.subtrees, n.recorded = {}) ∧
      (leakingConditional.portable .annotate).1.render = "(?(c)(?:(?i)x)|(?:(?i)y))".toList ∧
      (leakingConditional.portable .annotate).1.render =
        (leakingConditional.portable .restructure).1.render :=
  ⟨by decide, by decide, (styles_agree.1 leakingConditional (by decide)).2.1⟩

end RegexAnatomy
