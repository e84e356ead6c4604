import RegexAnatomy.Proofs.Portable.Hom

/-! What a conditional's plan looks at survives the changes made further inside, as
these reach the conditionals only. So the plan of a conditional can be read off the
tree as it was before any change, and a tree in which no plan is needed stays as it
is. -/

namespace RegexAnatomy

theorem portableAll_eq (style : Style) (nodes : List Node) :
    portableAll style nodes =
      (nodes.map fun n => (n.portable style).1, nodes.any fun n => (n.portable style).2) := by
  induction nodes with
  | nil => rfl
  | cons node nodes ih => simp [portableAll, ih]

theorem portableNo_eq (style : Style) (no : Option Node) :
    portableNo style no =
      (no.map fun n => (n.portable style).1, no.any fun n => (n.portable style).2) := by
  cases no <;> rfl

@[simp] theorem portable_sequence (style : Style) (children : List Node) (quantifier : Text)
    (wrapping : Wrapping) (isTest : Bool) :
    (Node.sequence children quantifier wrapping isTest).portable style =
      (.sequence (children.map fun n => (n.portable style).1) quantifier wrapping isTest,
        children.any fun n => (n.portable style).2) := by
  rw [Node.portable, portableAll_eq]

@[simp] theorem portable_alternation (style : Style) (branches : List Node) :
    (Node.alternation branches).portable style =
      (.alternation (branches.map fun n => (n.portable style).1),
        branches.any fun n => (n.portable style).2) := by
  rw [Node.portable, portableAll_eq]

@[simp] theorem portable_atom (style : Style) (text : Text) (kind : AtomKind)
    (isReference : Option Bool) :
    (Node.atom text kind isReference).portable style = (.atom text kind isReference, false) := rfl

theorem treeHom_portable (style : Style) : TreeHom fun node => (node.portable style).1 where
  map_atom _ _ _ := rfl
  map_sequence _ _ _ _ := by rw [portable_sequence]
  map_alternation _ := by rw [portable_alternation]
  map_conditional _ _ _ _ _ _ := by cases style <;> exact ⟨_, _, _, _, _, _, rfl⟩

@[simp] theorem setsOptions_condition_portable (style : Style) (condition : Condition) :
    (condition.portable style).1.setsOptions = condition.setsOptions := by
  cases condition with
  | group => rfl
  | expression test => exact (treeHom_portable style).setsOptions_map test

/-- Changes inside the parts of a conditional do not change its plan. -/
theorem planConditional_portable (style : Style) (condition : Condition) (yes : Node)
    (no : Option Node) :
    planConditional (condition.portable style).1 (yes.portable style).1
      (no.map fun n => (n.portable style).1) = planConditional condition yes no :=
  (treeHom_portable style).planConditional_map (setsOptions_condition_portable style condition)
    yes no

theorem portable_conditional (style : Style) (condition : Condition) (yes : Node)
    (no : Option Node) (hasBar testIsConstruct : Bool) (p : Portability) :
    (Node.conditional condition yes no hasBar testIsConstruct p).portable style =
      ((planConditional condition yes no).apply style (condition.portable style).1
          (yes.portable style).1 (no.map fun n => (n.portable style).1) hasBar testIsConstruct p,
        (condition.portable style).2 || (yes.portable style).2 ||
          (no.any fun n => (n.portable style).2) ||
          (planConditional condition yes no).isNeeded) := by
  rw [Node.portable, portableNo_eq]
  simp only [planConditional_portable]

theorem branchOptions_eq_nil {branch : Node} (h : branch.branchSetsOptions = false) :
    branch.branchOptions = [] := by
  refine List.filterMap_eq_nil_iff.2 fun n hn => ?_
  have hset : n.setsOptions = false := by simpa using List.any_eq_false.1 h n hn
  cases n with
  | atom text kind =>
    cases kind <;> simp_all [Node.setsOptions, Node.isAtom, Node.optionText?]
  | _ => rfl

theorem Plan.isNeeded_eq_false {plan : Plan} :
    plan.isNeeded = false ↔ plan.groupTest = false ∧ plan.groupYes = false ∧ plan.no = .keep := by
  simp [Plan.isNeeded, and_assoc]

theorem Plan.apply_of_not_needed {plan : Plan} (h : plan.isNeeded = false) (style : Style)
    (condition : Condition) (yes : Node) (no : Option Node) (hasBar testIsConstruct : Bool)
    (p : Portability) :
    plan.apply style condition yes no hasBar testIsConstruct p =
      .conditional condition yes no hasBar testIsConstruct p := by
  obtain ⟨ht, hy, hn⟩ := Plan.isNeeded_eq_false.1 h
  cases style with
  | annotate => simp [Plan.apply, Plan.record, ht, hy, hn]
  | restructure =>
    have hkeep : BranchChange.keep.apply = id := rfl
    simp [Plan.apply, ht, hy, hn, hkeep]

/-- The answer tells the truth: a tree that is said to be unchanged is unchanged. -/
theorem portable_of_unchanged {style : Style} {node : Node} :
    (node.portable style).2 = false → (node.portable style).1 = node := by
  induction node using Node.induction with
  | atom => exact fun _ => rfl
  | sequence children quantifier wrapping isTest ih =>
    intro h
    simp only [portable_sequence, List.any_eq_false, Bool.not_eq_true] at h ⊢
    rw [List.map_congr_left fun c hc => ih c hc (h c hc), List.map_id']
  | alternation branches ih =>
    intro h
    simp only [portable_alternation, List.any_eq_false, Bool.not_eq_true] at h ⊢
    rw [List.map_congr_left fun b hb => ih b hb (h b hb), List.map_id']
  | conditional condition yes no hasBar testIsConstruct p iht ihy ihn =>
    intro h
    simp only [portable_conditional, Bool.or_eq_false_iff] at h ⊢
    obtain ⟨⟨⟨hc, hy⟩, hn⟩, hp⟩ := h
    have hc' : (condition.portable style).1 = condition := by
      cases condition with
      | group => rfl
      | expression test => exact congrArg Condition.expression (iht test rfl hc)
    have hn' : (no.map fun n => (n.portable style).1) = no := by
      cases no with
      | none => rfl
      | some n => exact congrArg some (ihn n rfl hn)
    rw [Plan.apply_of_not_needed hp, hc', ihy hy, hn']

end RegexAnatomy
