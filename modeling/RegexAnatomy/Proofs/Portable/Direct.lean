import RegexAnatomy.Proofs.Assembly.Conditionals
import RegexAnatomy.Proofs.Assembly.Units
import RegexAnatomy.Proofs.Portable.Restructured

/-! Options that stand directly in a conditional. When a tree has been made portable
by restructuring, no test and nothing that a branch puts together itself sets
options. A quantifier makes a difference only where trivia part it from the group
that it repeats: the group is inside a bare sequence then, whether it sets options
is not asked, and the sequence stays without a group around it. -/

namespace RegexAnatomy

/-- The node itself, or what it repeats where it is a bare sequence with a quantifier. -/
def Node.counted : Node → Node
  | .sequence (node :: _) (_ :: _) .bare _ => node
  | node => node

def Node.directUnits : Node → List Node
  | .sequence children [] .bare _ => children
  | node => [node]

/-- An option group with trivia between it and its quantifier. -/
def Node.isSpacedOptionGroup : Node → Bool
  | .sequence (node :: _ :: _) (_ :: _) .bare _ => node.isOptionGroup
  | _ => false

/-- What a bare sequence repeats sets options only as a group with trivia behind it. -/
def Node.RepeatsPlainly : Node → Prop
  | .sequence (node :: items) (_ :: _) .bare _ =>
    node.setsOptions = true → items ≠ [] ∧ node.isOptionGroup = true
  | _ => True

section Repeats

variable {node : Node}

theorem counted_of_ne_repeated
    (h : ∀ n items c quantifier isTest,
      node ≠ .sequence (n :: items) (c :: quantifier) .bare isTest) :
    node.counted = node ∧ node.isSpacedOptionGroup = false := by
  constructor
  · unfold Node.counted
    split
    next => exact absurd rfl (h _ _ _ _ _)
    next => rfl
  · unfold Node.isSpacedOptionGroup
    split
    next => exact absurd rfl (h _ _ _ _ _)
    next => rfl

theorem Node.RepeatsPlainly.counted_eq (h : node.RepeatsPlainly) :
    node.counted.setsOptions = (node.setsOptions || node.isSpacedOptionGroup) := by
  unfold Node.RepeatsPlainly at h
  split at h
  next repeated items c quantifier isTest =>
    cases items with
    | nil =>
      have hset : repeated.setsOptions = false := by simpa using h
      exact hset
    | cons item items =>
      -- both sides ask the same: only groups set options here
      have hset : repeated.setsOptions = repeated.isOptionGroup := by
        rw [Bool.eq_iff_iff]
        exact ⟨fun hs => (h hs).2, fun hg => by rw [Node.setsOptions, hg, Bool.or_true]⟩
      exact hset
  next hne =>
    obtain ⟨hcounted, hspaced⟩ := counted_of_ne_repeated hne
    rw [hcounted, hspaced, Bool.or_false]

theorem repeatsPlainly_wrapped {children : List Node} {quantifier : Text} {wrapping : Wrapping}
    {isTest : Bool} (hw : wrapping ≠ .bare) :
    (Node.sequence children quantifier wrapping isTest).RepeatsPlainly := by
  unfold Node.RepeatsPlainly
  split
  next h =>
    injection h with _ _ hbare
    exact absurd hbare hw
  next => trivial

theorem Node.Repeatable.repeatsPlainly (h : node.Repeatable) : node.RepeatsPlainly := by
  cases h with
  | atom => trivial
  | group h =>
    cases h with
    | wrapped hw => exact repeatsPlainly_wrapped hw
    | conditional => trivial

/-- No quantifier is attached to an option construct. -/
theorem Node.Repeatable.isOptionGroup_eq (h : node.Repeatable) :
    node.isOptionGroup = node.setsOptions := by
  cases h with
  | @atom text kind isReference ht hk =>
    have hne : kind ≠ .inlineOptions := by
      rintro rfl
      exact hk
    simp [Node.setsOptions, Node.isAtom, Node.isOptionGroup, hne]
  | group h => cases h <;> rfl

/-- A group takes its quantifier itself. -/
theorem Node.Repeatable.repeatsPlainly_quantified (h : node.Repeatable) (quantifier : Text) :
    (node.quantified quantifier).RepeatsPlainly := by
  unfold Node.quantified
  split
  · exact h.repeatsPlainly
  next hq =>
    split
    · exact repeatsPlainly_wrapped (by simp)
    · exact repeatsPlainly_wrapped (by simp)
    next hconstruct =>
      obtain ⟨c, quantifier, rfl⟩ := List.exists_cons_of_ne_nil hq
      have hgroup : node.isOptionGroup = false := by
        cases h with
        | atom => rfl
        | group h =>
          cases h with
          | @wrapped children wrapping isTest hw =>
            cases wrapping with
            | bare => rfl
            | bracket capture => rfl
            | construct opener capture balance => exact absurd rfl (hconstruct _ _ _ _ _)
          | conditional => rfl
      intro hset
      rw [← h.isOptionGroup_eq, hgroup] at hset
      cases hset

theorem Node.Repeatable.repeatsPlainly_quantify (h : node.Repeatable) (b : Block) :
    ∀ n ∈ quantify node b.suffix, n.RepeatsPlainly := by
  unfold quantify
  split
  · exact List.forall_mem_singleton.2 (h.repeatsPlainly_quantified _)
  next hbefore =>
    split
    · exact List.forall_mem_cons.2 ⟨h.repeatsPlainly, b.forall_mem_before fun _ => trivial⟩
    next hq =>
      obtain ⟨c, quantifier, hquantifier⟩ := List.exists_cons_of_ne_nil hq
      rw [hquantifier]
      refine List.forall_mem_singleton.2 fun hset => ?_
      exact ⟨hbefore, h.isOptionGroup_eq.trans hset⟩

theorem Assembles.repeatsPlainly {g : GroupTable} {bs : List Block}
    {branches : List (List Node)} (h : Assembles g bs branches) (hr : ∀ b ∈ bs, b.Regular) :
    ∀ branch ∈ branches, ∀ n ∈ branch, n.RepeatsPlainly :=
  h.forall_mem_unit (fun _ => trivial) (fun _ _ => trivial)
    (fun _ hn => ⟨hn.repeatsPlainly, hn.repeatsPlainly_quantify⟩) hr

end Repeats

def Node.PartsRepeatPlainly : Node → Prop
  | .conditional condition yes no .. =>
    (∀ test, condition = .expression test → test.RepeatsPlainly) ∧
      ∀ branch ∈ yes :: no.toList, ∀ unit ∈ branch.directUnits, unit.RepeatsPlainly
  | _ => True

section Built

theorem directUnits_of_ne_bare {node : Node}
    (h : ∀ children isTest, node ≠ .sequence children [] .bare isTest) :
    node.directUnits = [node] := by
  unfold Node.directUnits
  split
  next children isTest => exact absurd rfl (h children isTest)
  next => rfl

theorem repeatsPlainly_branchNode {branch : List Node} (hu : ∀ n ∈ branch, n.IsUnit)
    (h : ∀ n ∈ branch, n.RepeatsPlainly) :
    ∀ unit ∈ (branchNode branch).directUnits, unit.RepeatsPlainly := by
  match branch with
  | [] => exact List.forall_mem_singleton.2 trivial
  | [node] =>
    have hunit : node.IsUnit := hu node (by simp)
    rw [branchNode, directUnits_of_ne_bare hunit.ne_bare]
    exact h
  | node :: next :: nodes => exact h

theorem repeatsPlainly_markTest {node : Node} (isTest : Bool) :
    (node.markTest isTest).RepeatsPlainly ↔ node.RepeatsPlainly := by
  cases node with
  | sequence children quantifier wrapping =>
    cases children <;> cases quantifier <;> cases wrapping <;> rfl
  | _ => rfl

theorem partsRepeatPlainly_of_readTree {pattern : Text} {tree : Node} {groups : GroupTable}
    (h : readTree pattern = .ok (tree, groups)) : tree.Every Node.PartsRepeatPlainly := by
  refine every_of_readTree (fun n hn => ?_) (fun g inner level start node hr hA hn => ?_) h
  · cases n with
    | conditional => cases hn
    | _ => trivial
  · obtain ⟨test, yes, no, hlevel, hn⟩ := conditional_opening_eq_ok.1 hn
    obtain ⟨condition, hc, rfl⟩ := conditionalNode_eq_ok.1 hn
    have hu := hA.isUnit hr
    have hplain := hA.repeatsPlainly hr
    rw [hlevel] at hu hplain
    obtain ⟨hufirst, huno⟩ := List.forall_mem_cons.1 hu
    obtain ⟨hfirst, hno⟩ := List.forall_mem_cons.1 hplain
    obtain ⟨htest, hyes⟩ := List.forall_mem_cons.1 hfirst
    constructor
    · rintro marked rfl
      rw [testCondition_expression hc]
      exact (repeatsPlainly_markTest true).2 htest
    · refine List.forall_mem_cons.2
        ⟨repeatsPlainly_branchNode (List.forall_mem_cons.1 hufirst).2 hyes, ?_⟩
      intro branch hbranch
      obtain ⟨nodes, hnodes, rfl⟩ : ∃ nodes ∈ no, branchNode nodes = branch := by
        simpa using hbranch
      have hmem : nodes ∈ no.toList := Option.mem_toList.2 hnodes
      exact repeatsPlainly_branchNode (huno nodes hmem) (hno nodes hmem)

end Built

/-- Neither a branch as a whole nor one of its units sets options, apart from spaced option groups
next to other units. -/
structure Node.BranchSettled (branch : Node) : Prop where
  whole : branch.counted.setsOptions = false
  units : ∀ unit ∈ branch.directUnits, unit.counted.setsOptions = unit.isSpacedOptionGroup

def Node.Settled : Node → Prop
  | .conditional condition yes no .. =>
    (∀ test, condition = .expression test →
      test.counted.setsOptions = test.isSpacedOptionGroup) ∧
      ∀ branch ∈ yes :: no.toList, branch.BranchSettled
  | _ => True

section Restructured

variable {node : Node}

theorem Node.RepeatsPlainly.restructured (h : node.RepeatsPlainly) :
    node.restructured.RepeatsPlainly := by
  cases node with
  | atom => exact h
  | sequence children quantifier wrapping isTest =>
    rw [restructured_sequence]
    match children, quantifier, wrapping with
    | [], _, _ => trivial
    | _ :: _, [], _ => trivial
    | _ :: _, _ :: _, .bracket _ => trivial
    | _ :: _, _ :: _, .construct .. => trivial
    | repeated :: items, c :: quantifier, .bare =>
      intro hset
      obtain ⟨hitems, hgroup⟩ := h ((treeHom_restructured.setsOptions_map repeated).symm.trans hset)
      exact ⟨by simpa using hitems, (treeHom_restructured.isOptionGroup_map repeated).trans hgroup⟩
  | alternation branches =>
    rw [restructured_alternation]
    trivial
  | conditional condition yes no hasBar testIsConstruct p =>
    rw [restructured_conditional]
    trivial

theorem directUnits_restructured (node : Node) :
    node.restructured.directUnits = node.directUnits.map Node.restructured := by
  cases node with
  | atom => rfl
  | sequence children quantifier wrapping isTest =>
    rw [restructured_sequence]
    cases quantifier <;> cases wrapping <;> simp [Node.directUnits]
  | alternation => simp [Node.directUnits]
  | conditional condition yes no hasBar testIsConstruct p =>
    simp [Node.directUnits, restructured_conditional]

theorem repeatsPlainly_grouped (node : Node) :
    node.grouped.RepeatsPlainly ∧ node.grouped.directUnits = [node.grouped] := by
  obtain ⟨children, isTest, h⟩ := exists_grouped_eq node
  rw [h]
  exact ⟨repeatsPlainly_wrapped (by simp [Wrapping.nonCapturing]), rfl⟩

/-- The units of a branch repeat plainly after a change if they do before it. -/
theorem repeatsPlainly_apply {branch : Node} (change : BranchChange)
    (h : ∀ unit ∈ branch.directUnits, unit.RepeatsPlainly) :
    ∀ unit ∈ (change.apply branch).directUnits, unit.RepeatsPlainly := by
  have hgrouped (node : Node) : ∀ unit ∈ node.grouped.directUnits, unit.RepeatsPlainly := by
    obtain ⟨hplain, hunits⟩ := repeatsPlainly_grouped node
    rw [hunits]
    exact List.forall_mem_singleton.2 hplain
  cases change with
  | keep => exact h
  | group => exact hgrouped branch
  | reopen options => exact hgrouped _

theorem repeatsPlainly_changed {condition : Condition} {test : Node}
    (h : ∀ old, condition = .expression old → old.RepeatsPlainly)
    (ht : condition.changed = .expression test) : test.RepeatsPlainly := by
  cases condition with
  | group id => cases ht
  | expression old =>
    unfold Condition.changed at ht
    split at ht
    · cases ht
      exact (repeatsPlainly_markTest true).2 (repeatsPlainly_grouped _).1
    · cases ht
      exact (h old rfl).restructured

/-- A bare sequence as a whole sets no options, and anything else is its own unit. -/
theorem setsOptions_of_units {branch : Node} (h : branch.branchSetsOptions = false) :
    branch.setsOptions = false ∧ ∀ unit ∈ branch.directUnits, unit.setsOptions = false := by
  have hunits : ∀ unit ∈ branch.units, unit.setsOptions = false := by
    simpa [Node.branchSetsOptions] using h
  have hbranch : branch.setsOptions = false := by
    cases branch with
    | sequence children quantifier wrapping isTest =>
      cases wrapping with
      | bare => rfl
      | _ => exact hunits _ (List.mem_singleton_self _)
    | _ => exact hunits _ (List.mem_singleton_self _)
  refine ⟨hbranch, ?_⟩
  unfold Node.directUnits
  split
  · exact hunits
  · exact List.forall_mem_singleton.2 hbranch

theorem branchSettled_of_not_setsOptions {branch : Node}
    (h : branch.branchSetsOptions = false)
    (hplain : ∀ unit ∈ branch.directUnits, unit.RepeatsPlainly) : branch.BranchSettled := by
  obtain ⟨hbranch, hunits⟩ := setsOptions_of_units h
  constructor
  · by_cases hrepeated : ∃ node items c quantifier isTest,
        branch = .sequence (node :: items) (c :: quantifier) .bare isTest
    · -- what the whole branch repeats is among the units that are asked
      obtain ⟨node, items, c, quantifier, isTest, rfl⟩ := hrepeated
      have hany : (node :: items).any Node.setsOptions = false := h
      exact eq_false_of_ne_true (List.any_eq_false.1 hany node (by simp))
    · obtain ⟨hcounted, -⟩ := counted_of_ne_repeated fun n items c quantifier isTest hn =>
        hrepeated ⟨n, items, c, quantifier, isTest, hn⟩
      rwa [hcounted]
  · intro unit hunit
    rw [(hplain unit hunit).counted_eq, hunits unit hunit, Bool.false_or]

theorem repeatsPlainly_directUnits {branch : Node}
    (h : ∀ unit ∈ branch.directUnits, unit.RepeatsPlainly) :
    ∀ unit ∈ branch.restructured.directUnits, unit.RepeatsPlainly := by
  rw [directUnits_restructured]
  exact List.forall_mem_map.2 fun unit hunit => (h unit hunit).restructured

/-- The changes planned for a conditional settle it. -/
theorem settled_restructured {node : Node} (h : node.PartsRepeatPlainly) :
    node.restructured.Settled := by
  cases node with
  | conditional condition yes no hasBar testIsConstruct p =>
    obtain ⟨htest, hbranches⟩ := h
    rw [restructured_conditional]
    constructor
    · intro test ht
      have hkept : test.setsOptions = false := by
        have hchanged := setsOptions_changed condition
        rwa [ht] at hchanged
      rw [(repeatsPlainly_changed htest ht).counted_eq, hkept, Bool.false_or]
    · refine List.forall_mem_cons.2 ⟨?_, fun branch hbranch => ?_⟩
      · have hkept := branchSetsOptions_planYes yes.restructured
        rw [planYes_restructured] at hkept
        exact branchSettled_of_not_setsOptions hkept
          (repeatsPlainly_apply _ (repeatsPlainly_directUnits (hbranches yes (by simp))))
      · obtain ⟨old, hold, rfl⟩ : ∃ n ∈ no, (planNo yes n).apply n.restructured = branch := by
          simpa using hbranch
        have hkept := branchSetsOptions_planNo yes.restructured old.restructured
        rw [planNo_restructured] at hkept
        have hmem : old ∈ yes :: no.toList := List.mem_cons_of_mem _ (Option.mem_toList.2 hold)
        exact branchSettled_of_not_setsOptions hkept
          (repeatsPlainly_apply _ (repeatsPlainly_directUnits (hbranches old hmem)))
  | atom => trivial
  | sequence => rw [restructured_sequence]; trivial
  | alternation => rw [restructured_alternation]; trivial

end Restructured

section Every

variable {P : Node → Prop} (hP : ∀ n : Node, n.isConditional = false → P n)
include hP

theorem every_afterOptions {node : Node} (options : Text) (h : node.Every P) :
    (node.afterOptions options).Every P := by
  have hoptions : (Node.plain options .inlineOptions).Every P := every_atom.2 (hP _ rfl)
  unfold Node.afterOptions
  split
  · exact h
  split
  · exact (every_parts hP).2 (List.forall_mem_cons.2 ⟨hoptions, (every_parts hP).1 h⟩)
  · exact (every_parts hP).2 (by simpa using And.intro hoptions h)

theorem every_apply {node : Node} (change : BranchChange) (h : node.Every P) :
    (change.apply node).Every P := by
  cases change with
  | keep => exact h
  | group => exact (every_wrapped hP _).2 h
  | reopen options => exact (every_wrapped hP _).2 (every_afterOptions hP options h)

theorem every_changed {condition : Condition}
    (h : ∀ test, condition = .expression test → test.restructured.Every P) :
    ∀ test, condition.changed = .expression test → test.Every P := by
  intro test ht
  cases condition with
  | group id => cases ht
  | expression old =>
    unfold Condition.changed at ht
    split at ht <;> cases ht
    · exact (every_markTest hP true).2
        ((every_wrapped hP _).2 ((every_markTest hP false).2 (h old rfl)))
    · exact h old rfl

/-- A property of the conditionals of a restructured tree comes from one of those before. -/
theorem every_restructured {Q : Node → Prop} (hQ : ∀ n, Q n → P n.restructured) {tree : Node} :
    tree.Every Q → tree.restructured.Every P := by
  induction tree using Node.induction with
  | atom =>
    intro _
    exact every_atom.2 (hP _ rfl)
  | sequence children quantifier wrapping isTest ih =>
    intro h
    rw [restructured_sequence]
    exact (every_parts hP).2
      (List.forall_mem_map.2 fun c hc => ih c hc ((every_sequence.1 h).2 c hc))
  | alternation branches ih =>
    intro h
    rw [restructured_alternation]
    exact every_alternation.2 ⟨hP _ rfl,
      List.forall_mem_map.2 fun b hb => ih b hb ((every_alternation.1 h).2 b hb)⟩
  | conditional condition yes no hasBar testIsConstruct p iht ihy ihn =>
    intro h
    have hself := hQ _ h.self
    obtain ⟨-, htest, hyes, hno⟩ := every_conditional.1 h
    rw [restructured_conditional] at hself ⊢
    refine every_conditional.2 ⟨hself, ?_, every_apply hP _ (ihy hyes), fun n hn => ?_⟩
    · exact every_changed hP fun test ht => iht test ht (htest test ht)
    · obtain ⟨old, hold, rfl⟩ := Option.map_eq_some_iff.1 hn
      exact every_apply hP _ (ihn old hold (hno old hold))

end Every

/-- In the restructured tree of an accepted pattern no conditional has a test or a branch that sets
options by itself or in a unit of its own, or that repeats what does, apart from the option groups
that trivia part from their quantifier: these are left as they are wherever they are the test or
one of several units. -/
theorem settled_read {pattern : Text} {read : Pattern}
    (h : Pattern.read .restructure pattern = .ok read) : read.root.Every Node.Settled := by
  obtain ⟨⟨tree, groups⟩, ht, h⟩ := bind_eq_ok.1 h
  cases h
  refine every_restructured (fun n hn => ?_) (fun _ => settled_restructured)
    (partsRepeatPlainly_of_readTree ht)
  cases n with
  | conditional => cases hn
  | _ => trivial

/-- A test and a branch that are wrapped, and a group that a comment keeps from being seen. -/
def spacedBranchPattern : Text := "(?(?i:a)*x(?m:b)(?#c)+|(?s)d)".toList

theorem settled_read_spacedBranchPattern :
    ∃ read, Pattern.read .restructure spacedBranchPattern = .ok read ∧
      read.portable = "(?(?:(?i:a)*)x(?m:b)(?#c)+|(?:(?s)d))".toList ∧
      read.root.Every Node.Settled := by
  have hread : (Pattern.read .restructure spacedBranchPattern).toOption.map Pattern.portable =
      some "(?(?:(?i:a)*)x(?m:b)(?#c)+|(?:(?s)d))".toList := by decide +kernel
  obtain ⟨read, hp, hportable⟩ := toOption_map_eq_some.1 hread
  exact ⟨read, hp, hportable, settled_read hp⟩

def Node.test? : Node → Option Node
  | .conditional (.expression test) .. => some test
  | _ => none

def testsSettingOptions (pattern : Text) : Option (List Bool) :=
  (Pattern.read .restructure pattern).toOption.map fun read =>
    (read.root.subtrees.filterMap Node.test?).map (·.counted.setsOptions)

/-- The comment is all that these patterns differ in, and it keeps the test from being wrapped. -/
theorem spacedTest_sets :
    testsSettingOptions "(?(?i:a)(?#c)*b|d)".toList = some [true] ∧
      testsSettingOptions "(?(?i:a)*b|d)".toList = some [false] := by
  decide +kernel

end RegexAnatomy
