import RegexAnatomy.Proofs.Assembly.Leaf
import RegexAnatomy.Proofs.Tree

/-! A property of conditionals holds all over an assembled tree if it holds of a
conditional at the moment it is put together. The other nodes are built, wrapped,
quantified and marked in many ways, and none of them makes a conditional. -/

namespace RegexAnatomy

def Node.isConditional : Node → Bool
  | .conditional .. => true
  | _ => false

section Every

variable {P : Node → Prop} (hP : ∀ n : Node, n.isConditional = false → P n)
include hP

theorem every_parts {children : List Node} {quantifier : Text} {wrapping : Wrapping}
    {isTest : Bool} :
    (Node.sequence children quantifier wrapping isTest).Every P ↔ ∀ c ∈ children, c.Every P :=
  every_sequence.trans (and_iff_right (hP _ rfl))

theorem every_trivia (item : Trivia) : item.node.Every P := every_atom.2 (hP _ rfl)

theorem every_wrapped {node : Node} (wrapping : Wrapping) :
    (node.wrapped wrapping).Every P ↔ node.Every P := by
  unfold Node.wrapped
  split
  · simp only [every_parts hP]
  · simp only [every_parts hP, List.mem_singleton, forall_eq]

theorem every_quantified {node : Node} (quantifier : Text) :
    (node.quantified quantifier).Every P ↔ node.Every P := by
  unfold Node.quantified
  split
  · rfl
  split
  · simp only [every_parts hP]
  · simp only [every_parts hP]
  · simp only [every_parts hP, List.mem_singleton, forall_eq]

theorem every_markTest {node : Node} (isTest : Bool) :
    (node.markTest isTest).Every P ↔ node.Every P := by
  cases node with
  | sequence => simp only [Node.markTest, every_parts hP]
  | _ => rfl

theorem every_quantify {node : Node} (b : Block) :
    (∀ n ∈ quantify node b.suffix, n.Every P) ↔ node.Every P := by
  have hi : ∀ n ∈ b.suffix.before, n.Every P := b.forall_mem_before (every_trivia hP)
  unfold quantify
  split
  · simp only [List.mem_singleton, forall_eq, every_quantified hP]
  split
  · exact List.forall_mem_cons.trans (and_iff_left hi)
  · simp only [List.mem_singleton, forall_eq, every_parts hP]
    exact List.forall_mem_cons.trans (and_iff_left hi)

theorem every_yields {g : GroupTable} {b : Block} {nodes : List Node} (h : b.Yields g nodes)
    (hr : b.Regular) : ∀ n ∈ nodes, n.Every P := by
  have atom (text : Text) (kind : AtomKind) (isReference : Option Bool) :
      (Node.atom text kind isReference).Every P := every_atom.2 (hP _ rfl)
  exact h.forall_mem hr (every_trivia hP) (fun text _ => atom text _ none)
    fun _ _ _ _ _ => ⟨atom _ _ _, (every_quantify hP b).2 (atom _ _ _)⟩

theorem every_branchNode {branch : List Node} :
    (branchNode branch).Every P ↔ ∀ n ∈ branch, n.Every P := by
  unfold branchNode
  split
  · have hempty : Node.empty.Every P := every_atom.2 (hP _ rfl)
    simpa using hempty
  · simp only [List.mem_singleton, forall_eq]
  · exact every_parts hP

theorem every_bodyNode {branches : List (List Node)} :
    (bodyNode branches).Every P ↔ ∀ br ∈ branches, ∀ n ∈ br, n.Every P := by
  unfold bodyNode
  split
  · simp only [List.mem_singleton, forall_eq, every_branchNode hP]
  · refine every_alternation.trans ((and_iff_right (hP _ rfl)).trans ?_)
    simp only [List.forall_mem_map, every_branchNode hP]

end Every

def Condition.testIsConstruct (test : Node) : Condition → Bool
  | .group _ => false
  | .expression _ => isConstruct test

/-- How a conditional is made of a test and one or two branches. -/
theorem conditionalNode_eq_ok {g : GroupTable} {start : Nat} {test node : Node} {yes : List Node}
    {no : Option (List Node)} :
    conditionalNode g start test yes no = .ok node ↔
      ∃ condition, testCondition g start test = .ok condition ∧
        node = .conditional condition (branchNode yes) (no.map branchNode) no.isSome
          (condition.testIsConstruct test) {} := by
  simp only [conditionalNode, bind_eq_ok]
  refine exists_congr fun condition => and_congr_right fun _ => ?_
  rw [Except.ok.injEq, eq_comm]
  cases condition <;> rfl

/-- A test names a group or is an expression, and then it is not a number either. -/
theorem testCondition_eq_ok {g : GroupTable} {start : Nat} {test : Node} {condition : Condition} :
    testCondition g start test = .ok condition ↔
      (∃ token id, testToken test = some token ∧ g.resolve token = some id ∧
        condition = .group id) ∨
      (∀ token ∈ testToken test, g.resolve token = none ∧ startsWithDigit token = false) ∧
        condition = .expression (test.markTest true) := by
  unfold testCondition
  cases testToken test with
  | none => simpa using eq_comm
  | some token =>
    cases hr : g.resolve token with
    | some id => simpa [hr] using eq_comm
    | none =>
      by_cases hd : startsWithDigit token
      · simp [hr, hd]
      · simpa [hr, hd] using eq_comm

theorem testCondition_expression {g : GroupTable} {start : Nat} {test marked : Node}
    (h : testCondition g start test = .ok (.expression marked)) : marked = test.markTest true := by
  rcases testCondition_eq_ok.1 h with ⟨_, _, -, -, he⟩ | ⟨-, he⟩
  · cases he
  · exact Condition.expression.inj he

theorem testCondition_group {g : GroupTable} {start : Nat} {test : Node} {id : GroupId}
    (h : testCondition g start test = .ok (.group id)) :
    ∃ token, testToken test = some token ∧ g.resolve token = some id := by
  rcases testCondition_eq_ok.1 h with ⟨token, _, htoken, hid, he⟩ | ⟨-, he⟩
  · cases he
    exact ⟨token, htoken, hid⟩
  · cases he

/-- The inside of a conditional is a test and a first branch, and perhaps a second branch. -/
theorem conditional_opening_eq_ok {g : GroupTable} {start : Nat} {level : Level} {node : Node} :
    Opening.conditional.node g start level = .ok node ↔
      ∃ test yes no, level.branches = (test :: yes) :: Option.toList no ∧
        conditionalNode g start test yes no = .ok node := by
  constructor
  · intro h
    simp only [Opening.node] at h
    split at h
    next test yes hb => exact ⟨test, yes, none, hb, h⟩
    next test yes no hb => exact ⟨test, yes, some no, hb, h⟩
    all_goals cases h
  · rintro ⟨test, yes, no, hb, h⟩
    cases no <;> simpa only [Opening.node, hb, Option.toList_none, Option.toList_some] using h

/-- What holds all over a group holds all over its branches, also where only the name of a group is
kept of a test. -/
theorem Opening.every_branches {g : GroupTable} {P : Node → Prop}
    (hP : ∀ n : Node, n.isConditional = false → P n) {opening : Opening} {start : Nat}
    {level : Level} {node : Node} (hn : opening.node g start level = .ok node)
    (h : node.Every P) : ∀ br ∈ level.branches, ∀ n ∈ br, n.Every P := by
  cases opening with
  | bracket =>
    cases hn
    exact (every_bodyNode hP).1 ((every_wrapped hP _).1 h)
  | group =>
    cases hn
    exact (every_bodyNode hP).1 ((every_wrapped hP _).1 h)
  | conditional =>
    obtain ⟨test, yes, no, hlevel, hn⟩ := conditional_opening_eq_ok.1 hn
    obtain ⟨condition, hc, rfl⟩ := conditionalNode_eq_ok.1 hn
    obtain ⟨-, hmarked, hyes, hno⟩ := every_conditional.1 h
    have htest : test.Every P := by
      cases condition with
      | group id =>
        obtain ⟨token, ht, -⟩ := testCondition_group hc
        unfold testToken at ht
        split at ht
        · exact (every_parts hP).2 (List.forall_mem_singleton.2 (every_atom.2 (hP _ rfl)))
        · cases ht
      | expression marked =>
        have hmarked := hmarked marked rfl
        rw [testCondition_expression hc] at hmarked
        exact (every_markTest hP true).1 hmarked
    rw [hlevel]
    refine List.forall_mem_cons.2 ⟨List.forall_mem_cons.2 ⟨htest, (every_branchNode hP).1 hyes⟩, ?_⟩
    cases no with
    | none => simp
    | some no => exact List.forall_mem_singleton.2 ((every_branchNode hP).1 (hno _ rfl))

/-- `hcond` says that `P` holds of a conditional at the moment its group closes. -/
theorem Assembles.every {g : GroupTable} {P : Node → Prop}
    (hP : ∀ n : Node, n.isConditional = false → P n)
    (hcond : ∀ inner level start node, (∀ b ∈ inner, b.Regular) →
      Assembles g inner level.branches →
      Opening.conditional.node g start level = .ok node → P node)
    {bs : List Block} {branches : List (List Node)} (h : Assembles g bs branches)
    (hr : ∀ b ∈ bs, b.Regular) : ∀ br ∈ branches, ∀ n ∈ br, n.Every P := by
  have loose (b : Block) : ∀ n ∈ b.loose, n.Every P := b.forall_mem_loose (every_trivia hP)
  induction h with
  | nil => simp
  | @leaf b nodes bs branch branches hb h ih =>
    obtain ⟨hbr, hbs⟩ := List.forall_mem_cons.1 hr
    obtain ⟨h1, h2⟩ := List.forall_mem_cons.1 (ih hbs)
    simp only [List.forall_mem_cons, List.forall_mem_append]
    exact ⟨⟨⟨every_yields hP hb hbr, loose b⟩, h1⟩, h2⟩
  | bar hb h ih =>
    have := ih (List.forall_mem_cons.1 hr).2
    simpa using this
  | @group opener closer opening inner bs level node branch branches ho hi hc hn h ihi ih =>
    have hr' : (∀ b ∈ inner, b.Regular) ∧ ∀ b ∈ bs, b.Regular :=
      ⟨fun b hb => hr b (by simp [hb]), fun b hb => hr b (by simp [hb])⟩
    obtain ⟨h1, h2⟩ := List.forall_mem_cons.1 (ih hr'.2)
    have hbody := ihi hr'.1
    have hnode : node.Every P := by
      cases opening with
      | bracket => cases hn; exact (every_wrapped hP _).2 ((every_bodyNode hP).2 hbody)
      | group => cases hn; exact (every_wrapped hP _).2 ((every_bodyNode hP).2 hbody)
      | conditional =>
        have hnode := hcond inner level _ node hr'.1 hi hn
        obtain ⟨test, yes, no, hlevel, hn⟩ := conditional_opening_eq_ok.1 hn
        obtain ⟨condition, hcondition, rfl⟩ := conditionalNode_eq_ok.1 hn
        rw [hlevel] at hbody
        obtain ⟨hty, hno⟩ := List.forall_mem_cons.1 hbody
        obtain ⟨htest, hyes⟩ := List.forall_mem_cons.1 hty
        refine every_conditional.2 ⟨hnode, ?_, (every_branchNode hP).2 hyes, ?_⟩
        · rintro marked rfl
          rw [testCondition_expression hcondition]
          exact (every_markTest hP true).2 htest
        · intro n hn
          obtain ⟨br, hbr, rfl⟩ := Option.map_eq_some_iff.1 hn
          exact (every_branchNode hP).2 (hno br (by simp [hbr]))
    simp only [List.forall_mem_cons, List.forall_mem_append]
    exact ⟨⟨⟨(every_quantify hP closer).2 hnode, loose closer⟩, h1⟩, h2⟩

/-- The tree of a pattern has the property all over. -/
theorem every_of_readTree {P : Node → Prop} (hP : ∀ n : Node, n.isConditional = false → P n)
    (hcond : ∀ g inner level start node, (∀ b ∈ inner, b.Regular) →
      Assembles g inner level.branches →
      Opening.conditional.node g start level = .ok node → P node)
    {pattern : Text} {tree : Node} {groups : GroupTable}
    (h : readTree pattern = .ok (tree, groups)) : tree.Every P := by
  obtain ⟨stream, branches, hs, -, hA, rfl⟩ := exists_assembles_of_readTree h
  exact (every_bodyNode hP).2 (hA.every hP (hcond groups) (blocksOf_regular hs))

end RegexAnatomy
