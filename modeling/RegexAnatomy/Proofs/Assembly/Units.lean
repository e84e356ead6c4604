import RegexAnatomy.Proofs.Assembly.Leaf

/-! What a branch is made of before it becomes a node: leaves with text, trivia,
option constructs, groups and conditionals, and any of these but the trivia and
the options under a quantifier. Never is a part of a branch an alternation or a
bare sequence without a quantifier, so a branch that is a bare sequence can be
told from a branch of one part, and a group from the parts inside it. -/

namespace RegexAnatomy

inductive Node.IsGroup : Node → Prop
  | wrapped {children : List Node} {wrapping : Wrapping} {isTest : Bool} (hw : wrapping ≠ .bare) :
      IsGroup (.sequence children [] wrapping isTest)
  | conditional {condition : Condition} {yes : Node} {no : Option Node}
      {hasBar testIsConstruct : Bool} {p : Portability} :
      IsGroup (.conditional condition yes no hasBar testIsConstruct p)

inductive Node.Repeatable : Node → Prop
  | atom {text : Text} {kind : AtomKind} {isReference : Option Bool} (ht : text ≠ [])
      (hk : kind.IsToken) : Repeatable (.atom text kind isReference)
  | group {node : Node} (h : node.IsGroup) : Repeatable node

inductive Node.IsUnit : Node → Prop
  | once {node : Node} (h : node.Repeatable) : IsUnit node
  | trivia (item : Trivia) : IsUnit item.node
  | options {text : Text} (h : IsOptionConstruct text) : IsUnit (.plain text .inlineOptions)
  | group {children : List Node} {quantifier : Text} {wrapping : Wrapping} {isTest : Bool}
      (hw : wrapping ≠ .bare) : IsUnit (.sequence children quantifier wrapping isTest)
  | repeated {node : Node} {items : List Trivia} {quantifier : Text} (h : node.Repeatable)
      (hq : quantifier ≠ []) :
      IsUnit (.sequence (node :: items.map Trivia.node) quantifier .bare false)

theorem Node.IsUnit.ne_bare {node : Node} (h : node.IsUnit) (children : List Node) (isTest : Bool) :
    node ≠ .sequence children [] .bare isTest := by
  rintro rfl
  cases h with
  | once h =>
    cases h with
    | group h => cases h with | wrapped hw => exact hw rfl
  | group hw => exact hw rfl
  | repeated _ hq => exact hq rfl

/-- Parentheses around a unit hold just the unit. -/
theorem Node.IsUnit.wrapped_eq {node : Node} (h : node.IsUnit) (wrapping : Wrapping) :
    node.wrapped wrapping = .sequence [node] [] wrapping false := by
  unfold Node.wrapped
  split
  next children isTest => exact absurd rfl (h.ne_bare children isTest)
  next => rfl

theorem Node.isGroup_wrapped {wrapping : Wrapping} (hw : wrapping ≠ .bare) (node : Node) :
    (node.wrapped wrapping).IsGroup := by
  unfold Node.wrapped
  split <;> exact .wrapped hw

theorem Opening.isGroup_node {g : GroupTable} {start : Nat} {level : Level}
    {opening : Opening} {node : Node} (h : opening.node g start level = .ok node) :
    node.IsGroup := by
  cases opening with
  | bracket capture => cases h; exact Node.isGroup_wrapped (by simp) _
  | group opener => cases h; exact Node.isGroup_wrapped (by simp) _
  | conditional =>
    simp only [Opening.node] at h
    split at h
    case h_1 | h_2 =>
      obtain ⟨condition, -, h⟩ := bind_eq_ok.1 h
      cases h
      exact .conditional
    all_goals cases h

theorem Node.Repeatable.isUnit_quantified {node : Node} (h : node.Repeatable) (quantifier : Text) :
    (node.quantified quantifier).IsUnit := by
  unfold Node.quantified
  split
  · exact .once h
  next hq =>
    split
    next => exact .group (by simp)
    next => exact .group (by simp)
    next => exact @Node.IsUnit.repeated _ [] _ h hq

theorem Node.Repeatable.isUnit_quantify {node : Node} (h : node.Repeatable) (b : Block) :
    ∀ n ∈ quantify node b.suffix, n.IsUnit := by
  exact forall_mem_quantify b .trivia (.once h) (h.isUnit_quantified _) fun hq _ => .repeated h hq

section Forall

variable {Q : Node → Prop} (hi : ∀ item : Trivia, Q item.node)
  (ho : ∀ text, IsOptionConstruct text → Q (.plain text .inlineOptions))
  (hq : ∀ node, node.Repeatable → Q node ∧ ∀ b : Block, ∀ n ∈ quantify node b.suffix, Q n)
include hi ho hq

theorem Block.Yields.forall_mem_unit {g : GroupTable} {b : Block} {nodes : List Node}
    (h : b.Yields g nodes) (hr : b.Regular) : ∀ n ∈ nodes, Q n := by
  refine h.forall_mem hr hi ho fun text kind isReference hne hk => ?_
  obtain ⟨hatom, hquantified⟩ := hq (.atom text kind isReference) (.atom hne hk)
  exact ⟨hatom, hquantified b⟩

/-- `Q` holds of everything in a branch if it holds of trivia, of option constructs, and of what can
be repeated, with and without the suffix of a block. -/
theorem Assembles.forall_mem_unit {g : GroupTable} {bs : List Block}
    {branches : List (List Node)} (h : Assembles g bs branches) (hr : ∀ b ∈ bs, b.Regular) :
    ∀ branch ∈ branches, ∀ n ∈ branch, Q n := by
  induction h with
  | nil => simp
  | @leaf b nodes bs branch branches hb h ih =>
    obtain ⟨hbr, hbs⟩ := List.forall_mem_cons.1 hr
    obtain ⟨h1, h2⟩ := List.forall_mem_cons.1 (ih hbs)
    simp only [List.forall_mem_cons, List.forall_mem_append]
    exact ⟨⟨⟨hb.forall_mem_unit hi ho hq hbr, b.forall_mem_loose hi⟩, h1⟩, h2⟩
  | bar hb h ih =>
    have := ih (List.forall_mem_cons.1 hr).2
    simpa using this
  | @group opener closer opening inner bs level node branch branches hop hinner hc hn h ihi ih =>
    obtain ⟨h1, h2⟩ := List.forall_mem_cons.1 (ih fun b hb => hr b (by simp [hb]))
    have hnode := (hq node (.group (Opening.isGroup_node hn))).2 closer
    simp only [List.forall_mem_cons, List.forall_mem_append]
    exact ⟨⟨⟨hnode, closer.forall_mem_loose hi⟩, h1⟩, h2⟩

end Forall

theorem Block.Yields.isUnit {g : GroupTable} {b : Block} {nodes : List Node}
    (h : b.Yields g nodes) (hr : b.Regular) : ∀ n ∈ nodes, n.IsUnit :=
  h.forall_mem_unit .trivia (fun _ => .options) (fun _ hn => ⟨.once hn, hn.isUnit_quantify⟩) hr

theorem Assembles.isUnit {g : GroupTable} {bs : List Block} {branches : List (List Node)}
    (h : Assembles g bs branches) (hr : ∀ b ∈ bs, b.Regular) :
    ∀ branch ∈ branches, ∀ n ∈ branch, n.IsUnit :=
  h.forall_mem_unit .trivia (fun _ => .options) (fun _ hn => ⟨.once hn, hn.isUnit_quantify⟩) hr

end RegexAnatomy
