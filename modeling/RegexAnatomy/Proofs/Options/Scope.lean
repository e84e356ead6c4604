import RegexAnatomy.Proofs.Assembly.Conditionals
import RegexAnatomy.Proofs.Assembly.Units
import RegexAnatomy.Proofs.Options.Net
import RegexAnatomy.Proofs.Portable.Plan

/-! The options in effect at each leaf of a tree, for engines that let an option
last from one part of a conditional into the next and for engines that do not.
What a node leaves in effect does not depend on the engine: it is what its own
option constructs set outside of any group. Making a tree portable keeps these,
and so keeps the options at every leaf. -/

namespace RegexAnatomy

/-- Whether an option that a part of a conditional sets lasts into the parts behind it. -/
inductive Scoping where
  | leaky
  | strict

def Scoping.next (scoping : Scoping) (opening before : OptionState) : OptionState :=
  match scoping with
  | .leaky => before
  | .strict => opening

structure Leaf where
  text : Text
  kind : AtomKind
  options : OptionState

/-- The options inside a group; only a group that sets options changes them. -/
def Wrapping.inside (wrapping : Wrapping) (st : OptionState) : OptionState :=
  match wrapping with
  | .construct opener .. => if opensOptions opener then st.apply opener else st
  | _ => st

mutual

/-- The leaves that have text and are no option constructs, and the options in effect behind the
node. -/
def Node.leaves (scoping : Scoping) (st : OptionState) : Node → List Leaf × OptionState
  | .atom text kind _ =>
    if kind = .inlineOptions then ([], st.apply text)
    else (if text = [] then [] else [⟨text, kind, st⟩], st)
  | .sequence children _ wrapping _ =>
    let inner := leavesAll scoping (wrapping.inside st) children
    (inner.1, if wrapping = .bare then inner.2 else st)
  | .alternation branches => leavesAll scoping st branches
  | .conditional condition yes no .. =>
    let test := condition.leaves scoping st
    let yes := yes.leaves scoping (scoping.next st test.2)
    let no := leavesNo scoping (scoping.next st yes.2) no
    (test.1 ++ yes.1 ++ no, st)

def Condition.leaves (scoping : Scoping) (st : OptionState) : Condition → List Leaf × OptionState
  | .group _ => ([], st)
  | .expression test => test.leaves scoping st

def leavesNo (scoping : Scoping) (st : OptionState) : Option Node → List Leaf
  | none => []
  | some no => (no.leaves scoping st).1

def leavesAll (scoping : Scoping) (st : OptionState) : List Node → List Leaf × OptionState
  | [] => ([], st)
  | node :: nodes =>
    let first := node.leaves scoping st
    let others := leavesAll scoping first.2 nodes
    (first.1 ++ others.1, others.2)

end

mutual

/-- The option constructs of a node that stand in no group and no conditional. -/
def Node.leaked : Node → List Text
  | .atom text kind _ => if kind = .inlineOptions then [text] else []
  | .sequence children _ wrapping _ => if wrapping = .bare then leakedAll children else []
  | .alternation branches => leakedAll branches
  | .conditional .. => []

def leakedAll : List Node → List Text
  | [] => []
  | node :: nodes => node.leaked ++ leakedAll nodes

end

theorem leakedAll_eq (nodes : List Node) : leakedAll nodes = nodes.flatMap Node.leaked := by
  induction nodes with
  | nil => rfl
  | cons node nodes ih => simp [leakedAll, ih]

section Leaves

variable {scoping scoping' : Scoping}

theorem leavesAll_snd {nodes : List Node}
    (h : ∀ n ∈ nodes, ∀ st, (n.leaves scoping st).2 = st.applyAll n.leaked) (st : OptionState) :
    (leavesAll scoping st nodes).2 = st.applyAll (leakedAll nodes) := by
  induction nodes generalizing st with
  | nil => rfl
  | cons node nodes ih =>
    simp only [leavesAll, leakedAll, OptionState.applyAll, List.foldl_append]
    rw [ih fun n hn => h n (by simp [hn]), h node (by simp)]
    rfl

/-- What is in effect behind a node does not depend on the engine. -/
theorem leaves_snd (node : Node) :
    ∀ st, (node.leaves scoping st).2 = st.applyAll node.leaked := by
  induction node using Node.induction with
  | atom text kind isReference =>
    intro st
    by_cases hk : kind = .inlineOptions <;>
      simp [Node.leaves, Node.leaked, hk, OptionState.applyAll]
  | sequence children quantifier wrapping isTest ih =>
    intro st
    by_cases hw : wrapping = .bare
    · subst hw
      simpa [Node.leaves, Node.leaked, Wrapping.inside] using leavesAll_snd ih st
    · simp [Node.leaves, Node.leaked, hw, OptionState.applyAll]
  | alternation branches ih => exact leavesAll_snd ih
  | conditional => exact fun _ => rfl

theorem leavesAll_map {f : Node → Node} {nodes : List Node}
    (h : ∀ n ∈ nodes, ∀ st, (f n).leaves scoping st = n.leaves scoping' st) (st : OptionState) :
    leavesAll scoping st (nodes.map f) = leavesAll scoping' st nodes := by
  induction nodes generalizing st with
  | nil => rfl
  | cons node nodes ih =>
    simp only [List.map_cons, leavesAll]
    rw [h node (by simp), ih fun n hn => h n (by simp [hn])]

@[simp] theorem leaves_markTest (node : Node) (isTest : Bool) (st : OptionState) :
    (node.markTest isTest).leaves scoping st = node.leaves scoping st := by
  cases node <;> rfl

/-- A group that sets no options hides what its inside sets. -/
theorem leaves_grouped (node : Node) (st : OptionState) :
    node.grouped.leaves scoping st = ((node.leaves scoping st).1, st) := by
  have hin : Wrapping.nonCapturing.inside st = st := by
    simp [Wrapping.nonCapturing, Wrapping.inside, opensOptions, isOptionChar]
  have hne : Wrapping.nonCapturing ≠ .bare := by simp [Wrapping.nonCapturing]
  unfold Node.grouped Node.wrapped
  split
  · have hbare : Wrapping.bare.inside st = st := rfl
    simp only [Node.leaves, hin, if_neg hne, hbare]
  · simp [Node.leaves, leavesAll, hin, hne]

theorem leaves_afterOptions (options : Text) (node : Node) (st : OptionState) :
    (node.afterOptions options).leaves scoping st = node.leaves scoping (st.apply options) := by
  unfold Node.afterOptions
  split
  next h => subst h; rfl
  · split <;> simp [Node.leaves, leavesAll, Node.plain, Node.concat, Wrapping.inside]

theorem leaves_of_isEmptyBranch {node : Node} (h : node.isEmptyBranch) (st : OptionState) :
    (node.leaves scoping st).1 = [] := by
  unfold Node.isEmptyBranch at h
  split at h
  next text kind _ =>
    have : text = [] := by simpa using h
    by_cases hk : kind = .inlineOptions <;> simp [Node.leaves, hk, this]
  next children quantifier _ =>
    have : children = [] := by simp_all
    simp [Node.leaves, this, leavesAll]
  next => cases h

end Leaves

/-- What the parts of a conditional leak is seen by the plan for it. -/
structure PlainLeaks (condition : Condition) (yes : Node) : Prop where
  test_leaked : ∀ test, condition = .expression test → test.leaked = []
  yes_leaked : yes.leaked = yes.branchOptions
  construct : ∀ text ∈ yes.branchOptions, IsOptionConstruct text

def Node.LeaksPlainly : Node → Prop
  | .conditional condition yes .. => PlainLeaks condition yes
  | _ => True

section Portable

variable {scoping : Scoping} {condition : Condition} {yes : Node} {no : Option Node}

/-- A part of a conditional that is grouped whenever it leaks leaves nothing in effect. -/
theorem leaves_groupedWhen {node : Node} {wrap : Bool} {st : OptionState}
    (h : wrap = false → (node.leaves scoping st).2 = st) :
    (if wrap then node.grouped else node).leaves scoping st = ((node.leaves scoping st).1, st) := by
  cases wrap with
  | true => exact leaves_grouped node st
  | false => exact Prod.ext rfl (h rfl)

theorem leaves_conditionGrouped {wrap : Bool} {st : OptionState}
    (h : (condition.leaves scoping st).2 = st) :
    (if wrap then condition.grouped else condition).leaves scoping st =
      ((condition.leaves scoping st).1, st) := by
  cases wrap with
  | false => exact Prod.ext rfl h
  | true =>
    cases condition with
    | group => rfl
    | expression test => simp [Condition.grouped, Condition.leaves, leaves_grouped]

/-- In a changed conditional both branches start as the conditional does, whatever the engine. -/
theorem leaves_apply {plan : Plan} {st : OptionState} (hc : (condition.leaves scoping st).2 = st)
    (hy : plan.groupYes = false → (yes.leaves scoping st).2 = st) (hasBar testIsConstruct : Bool)
    (p : Portability) :
    (plan.apply .restructure condition yes no hasBar testIsConstruct p).leaves scoping st =
      ((condition.leaves scoping st).1 ++ (yes.leaves scoping st).1 ++
        leavesNo scoping st (no.map plan.no.apply), st) := by
  have hnext : scoping.next st st = st := by cases scoping <;> rfl
  simp only [Plan.apply, Node.leaves]
  rw [leaves_conditionGrouped hc, hnext, leaves_groupedWhen hy, hnext]

/-- Changed or not, a second branch has the leaves it had behind what the first branch leaks. -/
theorem leaves_planNo {no no' : Node} (hyes : PlainLeaks condition yes)
    (hno : ∀ st, no'.leaves scoping st = no.leaves .leaky st) (st : OptionState) :
    (((planNo yes no).apply no').leaves scoping st).1 =
      (no.leaves .leaky (st.applyAll yes.leaked)).1 := by
  rw [hyes.yes_leaked]
  unfold planNo
  split
  · rw [BranchChange.apply, leaves_grouped, leaves_afterOptions,
      apply_netOptions hyes.construct, hno]
  next hkeep =>
    have hno' : (no'.leaves scoping st).1 =
        (no.leaves .leaky (st.applyAll yes.branchOptions)).1 := by
      rw [hno]
      by_cases hnil : yes.branchOptions = []
      · rw [hnil]; rfl
      · have hempty : no.isEmptyBranch := by simpa [hnil] using hkeep
        rw [leaves_of_isEmptyBranch hempty, leaves_of_isEmptyBranch hempty]
    split
    · rw [BranchChange.apply, leaves_grouped, hno']
    · exact hno'

/-- Making a tree portable keeps the leaves with the options in effect at them: what the engines
of the one kind read in the tree, those of both kinds read in the changed tree. -/
theorem leaves_portable {tree : Node} : tree.Every Node.LeaksPlainly → ∀ st,
    (tree.portable .restructure).1.leaves scoping st = tree.leaves .leaky st := by
  induction tree using Node.induction with
  | atom => exact fun _ _ => rfl
  | sequence children quantifier wrapping isTest ih =>
    intro h st
    have h := (every_sequence.1 h).2
    simp only [portable_sequence, Node.leaves]
    rw [leavesAll_map fun c hc => ih c hc (h c hc)]
  | alternation branches ih =>
    intro h st
    have h := (every_alternation.1 h).2
    simp only [portable_alternation, Node.leaves]
    exact leavesAll_map (fun b hb => ih b hb (h b hb)) st
  | conditional condition yes no hasBar testIsConstruct p iht ihy ihn =>
    intro h st
    obtain ⟨hplain, ht, hy, hn⟩ := every_conditional.1 h
    replace hplain : PlainLeaks condition yes := hplain
    have htest : (condition.portable .restructure).1.leaves scoping st =
        condition.leaves .leaky st := by
      cases condition with
      | group => rfl
      | expression test => exact iht test rfl (ht test rfl) st
    have htest_snd : (condition.leaves .leaky st).2 = st := by
      cases condition with
      | group => rfl
      | expression test => rw [Condition.leaves, leaves_snd, hplain.test_leaked test rfl]; rfl
    have hyes : yes.branchSetsOptions = false →
        ((yes.portable .restructure).1.leaves scoping st).2 = st := by
      intro hset
      rw [ihy hy, leaves_snd, hplain.yes_leaked, branchOptions_eq_nil hset]
      rfl
    rw [portable_conditional]
    simp only
    rw [leaves_apply (htest ▸ htest_snd) hyes, htest, ihy hy]
    simp only [Node.leaves, Scoping.next, htest_snd]
    cases no with
    | none => rfl
    | some no =>
      simp only [Option.map_some, leavesNo, planConditional, Option.getD_some]
      rw [leaves_planNo hplain (ihn no rfl (hn no rfl)), leaves_snd]

end Portable

section Units

theorem AtomKind.IsToken.ne_inlineOptions {kind : AtomKind} (h : kind.IsToken) :
    kind ≠ .inlineOptions := by
  rintro rfl
  exact h

theorem leaked_trivia (item : Trivia) : item.node.leaked = [] ∧ item.node.optionText? = none := by
  obtain ⟨kind, text⟩ := item
  cases kind <;> exact ⟨rfl, rfl⟩

theorem Node.Repeatable.leaked_eq {node : Node} (h : node.Repeatable) :
    node.leaked = [] ∧ node.optionText? = none := by
  cases h with
  | @atom text kind isReference ht hk =>
    have := hk.ne_inlineOptions
    cases kind <;> simp_all [Node.leaked, Node.optionText?]
  | group h =>
    cases h with
    | wrapped hw => exact ⟨if_neg hw, rfl⟩
    | conditional => exact ⟨rfl, rfl⟩

/-- A part of a branch leaks what it is, if it is an option construct. -/
theorem Node.IsUnit.leaked_eq {node : Node} (h : node.IsUnit) :
    node.leaked = node.optionText?.toList := by
  cases h with
  | once h => rw [h.leaked_eq.1, h.leaked_eq.2]; rfl
  | trivia item => rw [(leaked_trivia item).1, (leaked_trivia item).2]; rfl
  | options => rfl
  | group hw => exact if_neg hw
  | @repeated node items quantifier h hq =>
    simp only [Node.leaked, if_true, leakedAll_eq, List.flatMap_cons, h.leaked_eq.1,
      List.flatMap_map, (leaked_trivia _).1, Node.optionText?]
    simp

theorem Node.IsUnit.filterMap_units {node : Node} (h : node.IsUnit) :
    node.units.filterMap Node.optionText? = node.optionText?.toList := by
  have single (node : Node) : [node].filterMap Node.optionText? = node.optionText?.toList := by
    cases hn : node.optionText? <;> simp [hn]
  cases h with
  | once h =>
    cases h with
    | atom => exact single _
    | group h =>
      cases h with
      | @wrapped _ wrapping _ hw => cases wrapping <;> first | exact single _ | exact absurd rfl hw
      | conditional => exact single _
  | trivia => exact single _
  | options => exact single _
  | @group _ _ wrapping _ hw => cases wrapping <;> first | exact single _ | exact absurd rfl hw
  | @repeated node items quantifier h hq =>
    have hitems : (items.map Trivia.node).filterMap Node.optionText? = [] :=
      List.filterMap_eq_nil_iff.2 (List.forall_mem_map.2 fun item _ => (leaked_trivia item).2)
    rw [Node.units, List.filterMap_cons, h.leaked_eq.2]
    exact hitems

variable {branch : List Node}

theorem leakedAll_units (hu : ∀ n ∈ branch, n.IsUnit) :
    leakedAll branch = branch.filterMap Node.optionText? := by
  induction branch with
  | nil => rfl
  | cons node nodes ih =>
    obtain ⟨hn, hns⟩ := List.forall_mem_cons.1 hu
    rw [leakedAll, hn.leaked_eq, ih hns]
    cases ho : node.optionText? <;> simp [ho]

theorem leaked_branchNode (hu : ∀ n ∈ branch, n.IsUnit) :
    (branchNode branch).leaked = branch.filterMap Node.optionText? := by
  rw [← leakedAll_units hu]
  unfold branchNode
  split
  next => rfl
  next => simp [leakedAll]
  next => rfl

theorem branchOptions_branchNode (hu : ∀ n ∈ branch, n.IsUnit) :
    (branchNode branch).branchOptions = branch.filterMap Node.optionText? := by
  unfold branchNode
  split
  next => rfl
  next node =>
    rw [Node.branchOptions, (hu node (by simp)).filterMap_units]
    cases ho : node.optionText? <;> simp [ho]
  next => rfl

theorem isOptionConstruct_of_unit {node : Node} (h : node.IsUnit) {text : Text}
    (ht : node.optionText? = some text) : IsOptionConstruct text := by
  cases h with
  | once h => rw [h.leaked_eq.2] at ht; cases ht
  | trivia item => rw [(leaked_trivia item).2] at ht; cases ht
  | options h => cases ht; exact h
  | group => cases ht
  | repeated => cases ht

end Units

/-- A conditional whose test is an option construct and nothing else. -/
def Node.testsOptions : Node → Bool
  | .conditional (.expression test) .. => test.isAtom .inlineOptions
  | _ => false

theorem leaked_markTest (node : Node) (isTest : Bool) :
    (node.markTest isTest).leaked = node.leaked := by
  cases node <;> rfl

theorem optionText?_of_isAtom {node : Node} {isTest : Bool}
    (h : (node.markTest isTest).isAtom .inlineOptions = false) : node.optionText? = none := by
  cases node with
  | atom text kind => cases kind <;> first | rfl | cases h
  | _ => rfl

/-- The conditionals of a pattern leak what their plans see, unless they test options. -/
theorem leaksPlainly_of_readTree {pattern : Text} {tree : Node} {groups : GroupTable}
    (h : readTree pattern = .ok (tree, groups)) :
    tree.Every fun n => n.testsOptions = false → n.LeaksPlainly := by
  refine every_of_readTree ?_ ?_ h
  · intro n hn _
    cases n with
    | conditional => cases hn
    | _ => trivial
  · intro g inner level start node hr hA hn htests
    obtain ⟨test, yes, no, hlevel, hn⟩ := conditional_opening_eq_ok.1 hn
    obtain ⟨condition, hc, rfl⟩ := conditionalNode_eq_ok.1 hn
    have hu := hA.isUnit hr
    rw [hlevel] at hu
    obtain ⟨htest, hyes⟩ := List.forall_mem_cons.1 (List.forall_mem_cons.1 hu).1
    refine ⟨?_, ?_, fun text ht => ?_⟩
    · rintro marked rfl
      obtain rfl := testCondition_expression hc
      have hatom : (test.markTest true).isAtom .inlineOptions = false := by
        simpa [Node.testsOptions] using htests
      rw [leaked_markTest, htest.leaked_eq, optionText?_of_isAtom hatom]
      rfl
    · rw [leaked_branchNode hyes, branchOptions_branchNode hyes]
    · rw [branchOptions_branchNode hyes] at ht
      obtain ⟨n, hn, ht⟩ := List.mem_filterMap.1 ht
      exact isOptionConstruct_of_unit (hyes n hn) ht

/-- What an engine of the one kind reads in a pattern, engines of both kinds read in the pattern
made portable: the same leaves under the same options, whatever the options are in the beginning. -/
theorem leaves_read {pattern : Text} {tree : Node} {groups : GroupTable}
    (h : readTree pattern = .ok (tree, groups)) (ht : ∀ n ∈ tree.subtrees, n.testsOptions = false) :
    ∃ read, Pattern.read .restructure pattern = .ok read ∧ ∀ st,
      (read.root.leaves .leaky st).1 = (tree.leaves .leaky st).1 ∧
      (read.root.leaves .strict st).1 = (tree.leaves .leaky st).1 := by
  have hplain : tree.Every Node.LeaksPlainly := fun n hn =>
    leaksPlainly_of_readTree h n hn (ht n hn)
  refine ⟨_, by rw [Pattern.read, h]; rfl, fun st => ⟨?_, ?_⟩⟩
  · rw [leaves_portable hplain]
  · rw [leaves_portable hplain]

/-- The first branch turns `i` on and `s` off, the second is not empty and so reads under both. -/
def leakingPattern : Text := "(?(c)(?i-s)x|y)z".toList

theorem leaves_read_leakingPattern :
    ∃ tree groups read, readTree leakingPattern = .ok (tree, groups) ∧
      (∀ n ∈ tree.subtrees, n.testsOptions = false) ∧
      Pattern.read .restructure leakingPattern = .ok read ∧
      (read.root.leaves .strict fun _ => false).1.map (fun l => (l.text, l.options .i)) =
        [(['c'], false), (['x'], true), (['y'], true), (['z'], false)] := by
  have hread : ((readTree leakingPattern).toOption.map fun found =>
      (found.1.subtrees.all (! ·.testsOptions),
        (found.1.leaves .leaky fun _ => false).1.map fun l => (l.text, l.options .i))) =
      some (true, [(['c'], false), (['x'], true), (['y'], true), (['z'], false)]) := by
    decide +kernel
  cases h : readTree leakingPattern with
  | error e => rw [h] at hread; cases hread
  | ok found =>
    obtain ⟨tree, groups⟩ := found
    rw [h] at hread
    obtain ⟨hall, hleaves⟩ := Prod.mk.inj (Option.some.inj hread)
    have ht : ∀ n ∈ tree.subtrees, n.testsOptions = false := by simpa using hall
    obtain ⟨read, hp, hst⟩ := leaves_read h ht
    exact ⟨tree, groups, read, rfl, ht, hp, by rw [(hst _).2]; exact hleaves⟩

end RegexAnatomy
