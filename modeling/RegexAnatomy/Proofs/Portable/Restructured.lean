import RegexAnatomy.Proofs.Portable.Plan

/-! A tree made portable by restructuring. The change commutes with every way in
which a tree is put together but for a conditional, and the changed tree is
portable: making it portable again changes nothing. -/

namespace RegexAnatomy

def Node.restructured (node : Node) : Node := (node.portable .restructure).1

def Condition.restructured (condition : Condition) : Condition :=
  (condition.portable .restructure).1

def Condition.changed (condition : Condition) : Condition :=
  if condition.setsOptions then condition.restructured.grouped else condition.restructured

def planYes (yes : Node) : BranchChange := if yes.branchSetsOptions then .group else .keep

section Shape

@[simp] theorem restructured_atom (text : Text) (kind : AtomKind) (isReference : Option Bool) :
    (Node.atom text kind isReference).restructured = .atom text kind isReference := rfl

@[simp] theorem restructured_sequence (children : List Node) (quantifier : Text)
    (wrapping : Wrapping) (isTest : Bool) :
    (Node.sequence children quantifier wrapping isTest).restructured =
      .sequence (children.map Node.restructured) quantifier wrapping isTest := by
  rw [Node.restructured, portable_sequence]
  rfl

@[simp] theorem restructured_alternation (branches : List Node) :
    (Node.alternation branches).restructured = .alternation (branches.map Node.restructured) := by
  rw [Node.restructured, portable_alternation]
  rfl

theorem treeHom_restructured : TreeHom Node.restructured := treeHom_portable .restructure

/-- What becomes of a conditional. -/
theorem restructured_conditional (condition : Condition) (yes : Node) (no : Option Node)
    (hasBar testIsConstruct : Bool) (p : Portability) :
    (Node.conditional condition yes no hasBar testIsConstruct p).restructured =
      .conditional condition.changed ((planYes yes).apply yes.restructured)
        (no.map fun n => (planNo yes n).apply n.restructured) hasBar testIsConstruct p := by
  have hyes : (planYes yes).apply yes.restructured =
      if yes.branchSetsOptions then yes.restructured.grouped else yes.restructured := by
    unfold planYes
    split <;> rfl
  rw [Node.restructured, portable_conditional, hyes]
  cases no <;> rfl

end Shape

section Again

variable {style : Style}

theorem exists_grouped_eq (node : Node) :
    ∃ children isTest, node.grouped = .sequence children [] .nonCapturing isTest := by
  unfold Node.grouped Node.wrapped
  split
  · exact ⟨_, _, rfl⟩
  · exact ⟨_, _, rfl⟩

theorem branchSetsOptions_grouped (node : Node) : node.grouped.branchSetsOptions = false := by
  obtain ⟨children, isTest, h⟩ := exists_grouped_eq node
  rw [h]
  rfl

theorem portable_grouped_snd (node : Node) :
    (node.grouped.portable style).2 = (node.portable style).2 := by
  unfold Node.grouped Node.wrapped
  split <;> simp

theorem portable_afterOptions_snd (options : Text) (node : Node) :
    ((node.afterOptions options).portable style).2 = (node.portable style).2 := by
  unfold Node.afterOptions
  split
  · rfl
  · split <;> simp [Node.concat, Node.plain]

theorem portable_markTest_snd (node : Node) (isTest : Bool) :
    ((node.markTest isTest).portable style).2 = (node.portable style).2 := by
  cases node <;> simp [Node.markTest]

theorem portable_apply_snd (change : BranchChange) (node : Node) :
    ((change.apply node).portable style).2 = (node.portable style).2 := by
  cases change with
  | keep => rfl
  | group => exact portable_grouped_snd node
  | reopen options => exact (portable_grouped_snd _).trans (portable_afterOptions_snd options node)

theorem branchSetsOptions_planYes (yes : Node) :
    ((planYes yes).apply yes).branchSetsOptions = false := by
  unfold planYes
  split
  · exact branchSetsOptions_grouped yes
  next h => exact eq_false_of_ne_true h

theorem branchSetsOptions_planNo (yes no : Node) :
    ((planNo yes no).apply no).branchSetsOptions = false := by
  unfold planNo
  split
  · exact branchSetsOptions_grouped _
  split
  · exact branchSetsOptions_grouped no
  next h => exact eq_false_of_ne_true h

/-- A second branch that has been changed as planned is planned to be kept. -/
theorem planNo_apply (yes no : Node) :
    planNo ((planYes yes).apply yes) ((planNo yes no).apply no) = .keep := by
  have hyes : ((planYes yes).apply yes).branchOptions = [] :=
    branchOptions_eq_nil (branchSetsOptions_planYes yes)
  have hno := branchSetsOptions_planNo yes no
  generalize (planNo yes no).apply no = changed at hno ⊢
  simp [planNo, hyes, hno]

theorem portable_conditionGrouped_snd (condition : Condition) :
    (condition.grouped.portable style).2 = (condition.portable style).2 := by
  cases condition with
  | group => rfl
  | expression test =>
    exact (portable_markTest_snd _ _).trans ((portable_grouped_snd _).trans
      (portable_markTest_snd _ _))

theorem setsOptions_conditionGrouped (condition : Condition) :
    condition.grouped.setsOptions = false := by
  cases condition with
  | group => rfl
  | expression test =>
    obtain ⟨children, isTest, h⟩ := exists_grouped_eq (test.markTest false)
    rw [Condition.grouped, h]
    rfl

theorem planNo_restructured (yes no : Node) :
    planNo yes.restructured no.restructured = planNo yes no :=
  treeHom_restructured.planNo_map yes no

theorem planYes_restructured (yes : Node) : planYes yes.restructured = planYes yes := by
  rw [planYes, treeHom_restructured.branchSetsOptions_map, planYes]

theorem setsOptions_changed (condition : Condition) : condition.changed.setsOptions = false := by
  unfold Condition.changed
  split
  · exact setsOptions_conditionGrouped _
  next h =>
    have hsame := setsOptions_condition_portable .restructure condition
    exact hsame.trans (eq_false_of_ne_true h)

theorem portable_changed_snd (condition : Condition) :
    (condition.changed.portable style).2 = (condition.restructured.portable style).2 := by
  unfold Condition.changed
  split
  · exact portable_conditionGrouped_snd _
  · rfl

/-- The changed tree is portable. -/
theorem portable_restructured_snd (tree : Node) : (tree.restructured.portable style).2 = false := by
  induction tree using Node.induction with
  | atom => rfl
  | sequence children quantifier wrapping isTest ih =>
    rw [restructured_sequence, portable_sequence]
    simpa using ih
  | alternation branches ih =>
    rw [restructured_alternation, portable_alternation]
    simpa using ih
  | conditional condition yes no hasBar testIsConstruct p iht ihy ihn =>
    have htest : (condition.restructured.portable style).2 = false := by
      cases condition with
      | group => rfl
      | expression test => exact iht test rfl
    have hyes := branchSetsOptions_planYes yes.restructured
    rw [planYes_restructured] at hyes
    rw [restructured_conditional, portable_conditional, portable_changed_snd, htest,
      portable_apply_snd, ihy]
    simp only [Bool.or_eq_false_iff, Plan.isNeeded_eq_false]
    refine ⟨⟨⟨trivial, trivial⟩, ?_⟩, setsOptions_changed condition, hyes, ?_⟩
    · cases no with
      | none => rfl
      | some n => exact (portable_apply_snd _ _).trans (ihn n rfl)
    · cases no with
      | none => rfl
      | some n =>
        have h := planNo_apply yes.restructured n.restructured
        rw [planNo_restructured, planYes_restructured] at h
        exact h

/-- A tree that is changed is said to be changed: if it came out as it went in, it would be
portable. -/
theorem restructured_eq_self {tree : Node} :
    tree.restructured = tree ↔ (tree.portable .restructure).2 = false := by
  refine ⟨fun h => ?_, portable_of_unchanged⟩
  have hportable : (tree.restructured.portable .restructure).2 = false :=
    portable_restructured_snd tree
  rw [h] at hportable
  exact hportable

/-- Restructuring answers that it changed a tree exactly when it did, and what it has changed it
does not change again; nor is anything left to be recorded. -/
theorem portable_restructure_twice (tree : Node) :
    ((tree.portable .restructure).2 = false ↔ (tree.portable .restructure).1 = tree) ∧
      ∀ style, (tree.portable .restructure).1.portable style =
        ((tree.portable .restructure).1, false) := by
  refine ⟨restructured_eq_self.symm, fun style => ?_⟩
  have hagain : (tree.restructured.portable style).2 = false := portable_restructured_snd tree
  exact Prod.ext (portable_of_unchanged hagain) hagain

end Again

end RegexAnatomy
