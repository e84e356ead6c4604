import RegexAnatomy.Portable

/-! Induction over a pattern's tree. The tree is nested through lists, an option
and the test of a conditional, and every function on it comes as a `mutual`
block; this file gives one induction principle for all of them and says what
their list parts are in terms of `map`, `any` and `flatMap`. -/

namespace RegexAnatomy

/-- The hypotheses are about the direct parts, whatever holds them. -/
@[elab_as_elim]
theorem Node.induction {motive : Node → Prop}
    (atom : ∀ text kind isReference, motive (.atom text kind isReference))
    (sequence : ∀ children quantifier wrapping isTest, (∀ c ∈ children, motive c) →
      motive (.sequence children quantifier wrapping isTest))
    (alternation : ∀ branches, (∀ b ∈ branches, motive b) → motive (.alternation branches))
    (conditional : ∀ condition yes no hasBar testIsConstruct p,
      (∀ test, condition = .expression test → motive test) → motive yes → (∀ n ∈ no, motive n) →
      motive (.conditional condition yes no hasBar testIsConstruct p))
    (node : Node) : motive node :=
  match node with
  | .atom text kind isReference => atom text kind isReference
  | .sequence children quantifier wrapping isTest =>
    sequence children quantifier wrapping isTest fun c _ =>
      Node.induction atom sequence alternation conditional c
  | .alternation branches =>
    alternation branches fun b _ => Node.induction atom sequence alternation conditional b
  | .conditional condition yes no hasBar testIsConstruct p =>
    conditional condition yes no hasBar testIsConstruct p
      (fun test _ => Node.induction atom sequence alternation conditional test)
      (Node.induction atom sequence alternation conditional yes)
      (fun n _ => Node.induction atom sequence alternation conditional n)
termination_by sizeOf node
decreasing_by
  · have := List.sizeOf_lt_of_mem ‹c ∈ children›
    simp only [Node.sequence.sizeOf_spec]
    omega
  · have := List.sizeOf_lt_of_mem ‹b ∈ branches›
    simp only [Node.alternation.sizeOf_spec]
    omega
  · subst condition
    simp only [Node.conditional.sizeOf_spec, Condition.expression.sizeOf_spec]
    omega
  · simp only [Node.conditional.sizeOf_spec]
    omega
  · have : no = some n := ‹n ∈ no›
    subst this
    simp only [Node.conditional.sizeOf_spec, Option.some.sizeOf_spec]
    omega

mutual

def Node.subtrees : Node → List Node
  | .atom text kind isReference => [.atom text kind isReference]
  | .sequence children quantifier wrapping isTest =>
    .sequence children quantifier wrapping isTest :: subtreesAll children
  | .alternation branches => .alternation branches :: subtreesAll branches
  | .conditional condition yes no hasBar testIsConstruct p =>
    .conditional condition yes no hasBar testIsConstruct p ::
      (condition.subtrees ++ yes.subtrees ++ subtreesNo no)

def Condition.subtrees : Condition → List Node
  | .group _ => []
  | .expression test => test.subtrees

def subtreesNo : Option Node → List Node
  | none => []
  | some no => no.subtrees

def subtreesAll : List Node → List Node
  | [] => []
  | node :: nodes => node.subtrees ++ subtreesAll nodes

end

theorem subtreesAll_eq (nodes : List Node) : subtreesAll nodes = nodes.flatMap Node.subtrees := by
  induction nodes with
  | nil => rfl
  | cons node nodes ih => simp [subtreesAll, ih]

def Node.Every (P : Node → Prop) (tree : Node) : Prop := ∀ n ∈ tree.subtrees, P n

section Every

variable {P : Node → Prop}

@[simp] theorem every_atom {text : Text} {kind : AtomKind} {isReference : Option Bool} :
    (Node.atom text kind isReference).Every P ↔ P (.atom text kind isReference) := by
  simp [Node.Every, Node.subtrees]

@[simp] theorem every_sequence {children : List Node} {quantifier : Text} {wrapping : Wrapping}
    {isTest : Bool} :
    (Node.sequence children quantifier wrapping isTest).Every P ↔
      P (.sequence children quantifier wrapping isTest) ∧ ∀ c ∈ children, c.Every P := by
  simp only [Node.Every, Node.subtrees, subtreesAll_eq, List.forall_mem_cons, List.mem_flatMap,
    forall_exists_index, and_imp]
  exact and_congr_right fun _ => ⟨fun h c hc n hn => h n c hc hn, fun h n c hc hn => h c hc n hn⟩

@[simp] theorem every_alternation {branches : List Node} :
    (Node.alternation branches).Every P ↔
      P (.alternation branches) ∧ ∀ b ∈ branches, b.Every P := by
  simp only [Node.Every, Node.subtrees, subtreesAll_eq, List.forall_mem_cons, List.mem_flatMap,
    forall_exists_index, and_imp]
  exact and_congr_right fun _ => ⟨fun h c hc n hn => h n c hc hn, fun h n c hc hn => h c hc n hn⟩

@[simp] theorem every_conditional {condition : Condition} {yes : Node} {no : Option Node}
    {hasBar testIsConstruct : Bool} {p : Portability} :
    (Node.conditional condition yes no hasBar testIsConstruct p).Every P ↔
      P (.conditional condition yes no hasBar testIsConstruct p) ∧
        (∀ test, condition = .expression test → test.Every P) ∧ yes.Every P ∧
        ∀ n ∈ no, n.Every P := by
  have hc : (∀ n ∈ condition.subtrees, P n) ↔
      ∀ test, condition = .expression test → ∀ n ∈ test.subtrees, P n := by
    cases condition <;> simp [Condition.subtrees]
  have hn : (∀ n ∈ subtreesNo no, P n) ↔ ∀ m ∈ no, ∀ n ∈ m.subtrees, P n := by
    cases no <;> simp [subtreesNo]
  simp only [Node.Every, Node.subtrees, List.forall_mem_cons, List.forall_mem_append, hc, hn,
    and_assoc]

theorem Node.Every.self {node : Node} (h : node.Every P) : P node := by
  cases node with
  | atom => exact every_atom.1 h
  | sequence => exact (every_sequence.1 h).1
  | alternation => exact (every_alternation.1 h).1
  | conditional => exact (every_conditional.1 h).1

end Every

theorem any_congr_of_mem {f g : Node → Bool} {nodes : List Node} (h : ∀ n ∈ nodes, f n = g n) :
    nodes.any f = nodes.any g := by
  induction nodes with
  | nil => rfl
  | cons n ns ih => simp [h n (by simp), ih fun m hm => h m (by simp [hm])]

theorem renderAll_eq (nodes : List Node) : renderAll nodes = nodes.flatMap Node.render := by
  induction nodes with
  | nil => rfl
  | cons node nodes ih => simp [ih]

theorem Node.render_conditional (condition : Condition) (yes : Node) (no : Option Node)
    (hasBar testIsConstruct : Bool) (p : Portability) :
    (Node.conditional condition yes no hasBar testIsConstruct p).render =
      ['(', '?'] ++ condition.render p.wrapTest ++ groupedWhen p.wrapYes [] yes.render ++
        (if hasBar then ['|'] else []) ++
        (no.map fun n => groupedWhen p.wrapNo p.noOptions n.render).getD [] ++ [')'] := by
  cases no <;> rfl

theorem renderBranches_cons_cons (b c : Node) (bs : List Node) :
    renderBranches (b :: c :: bs) = b.render ++ '|' :: renderBranches (c :: bs) := rfl

theorem renderBranches_congr {f g : Node → Node} {branches : List Node}
    (h : ∀ b ∈ branches, (f b).render = (g b).render) :
    renderBranches (branches.map f) = renderBranches (branches.map g) := by
  induction branches with
  | nil => rfl
  | cons b bs ih =>
    have hb := h b (by simp)
    cases bs with
    | nil => simpa [renderBranches] using hb
    | cons c cs =>
      have := ih fun x hx => h x (by simp [hx])
      simp only [List.map_cons, renderBranches_cons_cons, hb] at this ⊢
      rw [this]

end RegexAnatomy
