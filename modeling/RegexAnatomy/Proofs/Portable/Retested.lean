import RegexAnatomy.Proofs.Options.Scope
import RegexAnatomy.Proofs.Portable.Restructured

/-! What a conditional records of its test. A tree that is read records whether the
test brings a construct of its own, and a change of the tree leaves the record as it
was. A group around options that are the test is a construct where there was none,
so the text of the changed tree is read as the changed tree with its records right
again. Nothing is written for them, and no plan looks at them. -/

namespace RegexAnatomy

/-- The test is a construct: what a tree records when it is read. -/
def Condition.bringsConstruct : Condition → Bool
  | .group _ => false
  | .expression test => isConstruct test

mutual

def Node.retested : Node → Node
  | .atom text kind isReference => .atom text kind isReference
  | .sequence children quantifier wrapping isTest =>
    .sequence (retestedAll children) quantifier wrapping isTest
  | .alternation branches => .alternation (retestedAll branches)
  | .conditional condition yes no hasBar _ p =>
    .conditional condition.retested yes.retested (retestedNo no) hasBar
      condition.bringsConstruct p

def Condition.retested : Condition → Condition
  | .group id => .group id
  | .expression test => .expression test.retested

def retestedNo : Option Node → Option Node
  | none => none
  | some no => some no.retested

def retestedAll : List Node → List Node
  | [] => []
  | node :: nodes => node.retested :: retestedAll nodes

end

theorem retestedAll_eq (nodes : List Node) : retestedAll nodes = nodes.map Node.retested := by
  induction nodes with
  | nil => rfl
  | cons node nodes ih => simp [retestedAll, ih]

theorem retestedNo_eq (no : Option Node) : retestedNo no = no.map Node.retested := by
  cases no <;> rfl

theorem retested_conditional (condition : Condition) (yes : Node) (no : Option Node)
    (hasBar testIsConstruct : Bool) (p : Portability) :
    (Node.conditional condition yes no hasBar testIsConstruct p).retested =
      .conditional condition.retested yes.retested (no.map Node.retested) hasBar
        condition.bringsConstruct p := by
  rw [Node.retested, retestedNo_eq]

theorem treeHom_retested : TreeHom Node.retested where
  map_atom _ _ _ := rfl
  map_sequence _ _ _ _ := by rw [Node.retested, retestedAll_eq]
  map_alternation _ := by rw [Node.retested, retestedAll_eq]
  map_conditional _ _ _ _ _ _ := ⟨_, _, _, _, _, _, rfl⟩

theorem render_retested (tree : Node) : tree.retested.render = tree.render := by
  refine treeHom_retested.render_congr .id
    (fun condition yes no hasBar testIsConstruct p _ ht hy hn => ?_) (Q := fun _ => True)
    fun _ _ => trivial
  have hc (wrap : Bool) : condition.retested.render wrap = condition.render wrap := by
    cases condition with
    | group => rfl
    | expression test => exact congrArg (groupedWhen wrap []) (ht test rfl)
  rw [retested_conditional, id, Node.render_conditional, Node.render_conditional, hc, hy]
  cases no with
  | none => rfl
  | some n => rw [Option.map_some, Option.map_some, Option.map_some, hn n rfl]; rfl

/-- The records of the tests do not matter for whether anything has to change. -/
theorem portable_retested_snd (style : Style) (tree : Node) :
    (tree.retested.portable style).2 = (tree.portable style).2 := by
  induction tree using Node.induction with
  | atom => rfl
  | sequence children quantifier wrapping isTest ih =>
    rw [treeHom_retested.map_sequence, portable_sequence, portable_sequence, List.any_map]
    exact any_congr_of_mem ih
  | alternation branches ih =>
    rw [treeHom_retested.map_alternation, portable_alternation, portable_alternation,
      List.any_map]
    exact any_congr_of_mem ih
  | conditional condition yes no hasBar testIsConstruct p iht ihy ihn =>
    have hset : condition.retested.setsOptions = condition.setsOptions := by
      cases condition with
      | group => rfl
      | expression test => exact treeHom_retested.setsOptions_map test
    have hc : (condition.retested.portable style).2 = (condition.portable style).2 := by
      cases condition with
      | group => rfl
      | expression test => exact iht test rfl
    have hn : ((no.map Node.retested).any fun n => (n.portable style).2) =
        no.any fun n => (n.portable style).2 := by
      cases no with
      | none => rfl
      | some n => exact ihn n rfl
    simp only [retested_conditional, portable_conditional, hc, ihy, hn,
      treeHom_retested.planConditional_map hset]

/-- What the text of the changed tree is read as. -/
def Node.reread (node : Node) : Node := node.restructured.retested

def Condition.reread (condition : Condition) : Condition := condition.changed.retested

theorem treeHom_reread : TreeHom Node.reread := treeHom_retested.comp treeHom_restructured

theorem retested_grouped (condition : Condition) :
    condition.grouped.retested = condition.retested.grouped := by
  cases condition with
  | group => rfl
  | expression test =>
    exact congrArg Condition.expression ((treeHom_retested.map_markTest _ _).trans
      (congrArg _ ((treeHom_retested.map_grouped _).trans
        (congrArg _ (treeHom_retested.map_markTest _ _)))))

theorem bringsConstruct_retested (condition : Condition) :
    condition.retested.bringsConstruct = condition.bringsConstruct := by
  cases condition with
  | group => rfl
  | expression test => exact treeHom_retested.isConstruct_map test

theorem reread_conditional (condition : Condition) (yes : Node) (no : Option Node)
    (hasBar testIsConstruct : Bool) (p : Portability) :
    (Node.conditional condition yes no hasBar testIsConstruct p).reread =
      .conditional condition.reread ((planYes yes).apply yes.reread)
        (no.map fun n => (planNo yes n).apply n.reread) hasBar
        condition.reread.bringsConstruct p := by
  rw [Node.reread, restructured_conditional, retested_conditional, treeHom_retested.map_apply,
    Option.map_map, Condition.reread, bringsConstruct_retested]
  simp only [Function.comp_def, treeHom_retested.map_apply]
  rfl

section Records

/-- What the conditional records of its test is right. -/
def Node.RecordsTest : Node → Prop
  | .conditional condition _ _ _ testIsConstruct _ => testIsConstruct = condition.bringsConstruct
  | _ => True

theorem isConstruct_markTest (node : Node) (isTest : Bool) :
    isConstruct (node.markTest isTest) = isConstruct node := by
  cases node with
  | sequence _ _ wrapping => cases wrapping <;> rfl
  | _ => rfl

theorem isAtom_markTest (kind : AtomKind) (node : Node) (isTest : Bool) :
    (node.markTest isTest).isAtom kind = node.isAtom kind := by
  cases node <;> rfl

theorem testIsConstruct_eq {g : GroupTable} {start : Nat} {test : Node} {condition : Condition}
    (h : testCondition g start test = .ok condition) :
    condition.testIsConstruct test = condition.bringsConstruct := by
  cases condition with
  | group => rfl
  | expression marked =>
    obtain rfl := testCondition_expression h
    exact (isConstruct_markTest test true).symm

theorem recordsTest_of_readTree {pattern : Text} {tree : Node} {groups : GroupTable}
    (h : readTree pattern = .ok (tree, groups)) : tree.Every Node.RecordsTest := by
  refine every_of_readTree ?_ ?_ h
  · intro n hn
    cases n with
    | conditional => cases hn
    | _ => trivial
  · intro g inner level start node _ _ hn
    obtain ⟨test, yes, no, -, hn⟩ := conditional_opening_eq_ok.1 hn
    obtain ⟨condition, hcond, rfl⟩ := conditionalNode_eq_ok.1 hn
    exact testIsConstruct_eq hcond

theorem isConstruct_grouped (node : Node) : isConstruct node.grouped = true := by
  obtain ⟨children, isTest, h⟩ := exists_grouped_eq node
  rw [h]
  rfl

/-- Only a group around options that are the test is a construct where there was none. -/
theorem bringsConstruct_changed {condition : Condition}
    (h : ∀ test, condition = .expression test → test.isAtom .inlineOptions = false) :
    condition.changed.bringsConstruct = condition.bringsConstruct := by
  cases condition with
  | group => rfl
  | expression test =>
    unfold Condition.changed
    split
    next hset =>
      have hgroup : test.isOptionGroup = true := by
        simpa [Condition.setsOptions, Node.setsOptions, h test rfl] using hset
      have hconstruct : isConstruct test = true := by
        unfold Node.isOptionGroup at hgroup
        split at hgroup
        · rfl
        · cases hgroup
      have hgrouped := isConstruct_grouped (test.restructured.markTest false)
      exact (isConstruct_markTest _ true).trans (hgrouped.trans hconstruct.symm)
    next => exact treeHom_restructured.isConstruct_map test

/-- If no conditional tests options and nothing else, the records stay right. -/
theorem reread_eq_restructured {tree : Node} (hrecords : tree.Every Node.RecordsTest)
    (htests : tree.Every (·.testsOptions = false)) : tree.reread = tree.restructured := by
  refine treeHom_reread.congr treeHom_restructured
    (fun condition yes no hasBar testIsConstruct p hself ht hy hn => ?_)
    (Q := fun n => n.RecordsTest ∧ n.testsOptions = false)
    fun n hn => ⟨hrecords n hn, htests n hn⟩
  obtain ⟨hrecord, hoptions⟩ := hself
  have hsame : condition.restructured.retested = condition.restructured := by
    cases condition with
    | group => rfl
    | expression test => exact congrArg Condition.expression (ht test rfl)
  have hc : condition.reread = condition.changed := by
    unfold Condition.reread Condition.changed
    split
    · rw [retested_grouped, hsame]
    · exact hsame
  have hconstruct : condition.changed.bringsConstruct = testIsConstruct := by
    rw [bringsConstruct_changed, hrecord]
    rintro test rfl
    exact hoptions
  have hno : (no.map fun n => (planNo yes n).apply n.reread) =
      no.map fun n => (planNo yes n).apply n.restructured := by
    cases no with
    | none => rfl
    | some n => rw [Option.map_some, Option.map_some, hn n rfl]
  rw [reread_conditional, restructured_conditional, hc, hconstruct, hy, hno]

end Records

end RegexAnatomy
