import RegexAnatomy.Proofs.Assembly.Units
import RegexAnatomy.Proofs.Assembly.Written

/-! Tests of conditionals that name a group. Such a test is a leaf in plain
parentheses, and it is found out here from which blocks it was put together. -/

namespace RegexAnatomy

variable {g : GroupTable}

theorem Assembles.eq_nil {bs : List Block} (h : Assembles g bs [[]]) (hr : ∀ b ∈ bs, b.Regular) :
    bs = [] := by
  generalize hbr : [[]] = branches at h
  cases h with
  | nil => rfl
  | @leaf b nodes _ _ _ hb h =>
    have hne := hb.ne_nil (hr b (by simp))
    simp_all
  | bar _ h => exact absurd (by simpa using hbr.symm) h.ne_nil
  | group =>
    have hne := quantify_ne_nil
    simp_all

/-- A group is no atom, with or without a quantifier. -/
theorem Node.IsGroup.quantify_ne_atom {node : Node} (h : node.IsGroup) {s : Suffix} {text : Text}
    {kind : AtomKind} {isReference : Option Bool} {ns : List Node} :
    quantify node s ≠ .atom text kind isReference :: ns := by
  have hne : node ≠ .atom text kind isReference := by cases h <;> simp
  intro hq
  rcases quantify_eq_cons hq with ⟨-, hn⟩ | ⟨-, hn⟩ | hn
  · unfold Node.quantified at hn
    split at hn
    · exact hne hn.symm
    · split at hn <;> cases hn
  · exact hne hn.symm
  · cases hn

/-- A branch that is one atom comes from one block. -/
theorem Assembles.exists_eq_singleton {bs : List Block} {text : Text} {kind : AtomKind}
    {isReference : Option Bool} (h : Assembles g bs [[.atom text kind isReference]])
    (hr : ∀ b ∈ bs, b.Regular) : ∃ b nodes, bs = [b] ∧ b.Yields g nodes ∧
      nodes ++ b.loose = [.atom text kind isReference] := by
  generalize hbr : [[Node.atom text kind isReference]] = branches at h
  cases h with
  | nil => simp at hbr
  | @leaf b nodes bs branch _ hb h =>
    obtain ⟨hbranch, rfl⟩ := List.cons.inj hbr
    rcases List.append_eq_cons_iff.1 hbranch.symm with ⟨hnil, -⟩ | ⟨rest, hnodes, hrest⟩
    · exact absurd hnil (hb.ne_nil (hr b (by simp)))
    · obtain ⟨rfl, rfl⟩ := List.append_eq_nil_iff.1 hrest.symm
      rw [h.eq_nil fun c hc => hr c (by simp [hc])]
      exact ⟨b, nodes, rfl, hb, hnodes⟩
  | bar => simp at hbr
  | @group opener closer opening inner bs level node branch branches ho hi hc hn h =>
    obtain ⟨hbranch, rfl⟩ := List.cons.inj hbr
    rw [List.append_assoc] at hbranch
    rcases List.append_eq_cons_iff.1 hbranch.symm with ⟨hnil, -⟩ | ⟨rest, hnodes, -⟩
    · exact absurd hnil (quantify_ne_nil node _)
    · exact absurd hnodes (Opening.isGroup_node hn).quantify_ne_atom

/-- A pair of parentheses around one leaf was written around one leaf, or around nothing. -/
theorem branches_eq_of_wrapped {branches : List (List Node)} {wrapping : Wrapping}
    {text : Text} {kind : AtomKind} {isReference : Option Bool} {isTest : Bool}
    (hu : ∀ branch ∈ branches, ∀ n ∈ branch, n.IsUnit)
    (h : (bodyNode branches).wrapped wrapping =
      .sequence [.atom text kind isReference] [] wrapping isTest) :
    branches = [[.atom text kind isReference]] ∨ text = [] := by
  unfold bodyNode at h
  split at h
  next branch =>
    unfold branchNode at h
    split at h
    next =>
      cases h
      exact .inr rfl
    next node =>
      have hnode : node.IsUnit := hu [node] (by simp) node (by simp)
      rw [hnode.wrapped_eq] at h
      cases h
      exact .inl rfl
    next _ hne => exact absurd (Node.sequence.inj h).1 (hne _)
  next => cases h

def Node.HasParentheses : Node → Prop
  | .sequence _ _ wrapping _ => wrapping ≠ .bare
  | _ => False

/-- A block of its own brings no parentheses into the tree. -/
theorem Block.Yields.no_parentheses {b : Block} {nodes : List Node} (h : b.Yields g nodes)
    (hr : b.Regular) : ∀ n ∈ nodes ++ b.loose, ¬ n.HasParentheses := by
  have trivia (item : Trivia) : ¬ item.node.HasParentheses := id
  refine List.forall_mem_append.2 ⟨?_, b.forall_mem_loose trivia⟩
  refine h.forall_mem hr trivia (fun _ _ => id) fun text kind isReference _ _ => ⟨id, ?_⟩
  refine forall_mem_quantify b trivia id ?_ fun _ _ hw => hw rfl
  unfold Node.quantified
  split
  · exact id
  · exact fun hw => hw rfl

theorem Node.IsGroup.quantified_eq_bracket {node : Node} (h : node.IsGroup) {added : Text}
    {children : List Node} {quantifier : Text} {capture : Option Nat} {isTest : Bool}
    (hq : node.quantified added = .sequence children quantifier (.bracket capture) isTest) :
    added = quantifier ∧ node = .sequence children [] (.bracket capture) isTest := by
  unfold Node.quantified at hq
  split at hq
  next hadded =>
    subst hadded hq
    cases h
    exact ⟨rfl, rfl⟩
  · split at hq <;> cases hq
    exact ⟨rfl, rfl⟩

theorem Token.eq_openParen {token : Token} {capture : Option Nat}
    (h : token.opening? = some (.bracket capture)) : token = .openParen capture := by
  cases token <;> cases h
  rfl

/-- Only plain parentheses become plain parentheses. -/
theorem Opening.node_eq_bracket {start : Nat} {level : Level} {opening : Opening}
    {children : List Node} {quantifier : Text} {capture : Option Nat} {isTest : Bool}
    (h : opening.node g start level =
      .ok (.sequence children quantifier (.bracket capture) isTest)) :
    opening = .bracket capture ∧ quantifier = [] ∧
      (bodyNode level.branches).wrapped (.bracket capture) =
        .sequence children [] (.bracket capture) isTest := by
  have hq : quantifier = [] := by
    cases Opening.isGroup_node h
    rfl
  subst hq
  cases opening with
  | bracket c =>
    have h : (bodyNode level.branches).wrapped (.bracket c) = _ := Except.ok.inj h
    obtain rfl : c = capture := by
      unfold Node.wrapped at h
      split at h <;> cases h <;> rfl
    exact ⟨rfl, rfl, h⟩
  | group opener =>
    have h : (bodyNode level.branches).wrapped (.construct _ _ _) = _ := Except.ok.inj h
    unfold Node.wrapped at h
    split at h <;> cases h
  | conditional =>
    obtain ⟨test, yes, no, -, h⟩ := conditional_opening_eq_ok.1 h
    obtain ⟨condition, -, h⟩ := conditionalNode_eq_ok.1 h
    cases h

/-- Plain parentheses with a quantifier have it right behind them. -/
theorem Opening.eq_bracket_of_quantify {start : Nat} {level : Level} {opening : Opening}
    {node : Node} {s : Suffix} {more children : List Node} {quantifier : Text}
    {capture : Option Nat} {isTest : Bool} (hn : opening.node g start level = .ok node)
    (hq : quantify node s = .sequence children quantifier (.bracket capture) isTest :: more) :
    opening = .bracket capture ∧
      (bodyNode level.branches).wrapped (.bracket capture) =
        .sequence children [] (.bracket capture) isTest ∧
      (quantifier ≠ [] → s.before = [] ∧ s.quantifier = quantifier) := by
  rcases quantify_eq_cons hq with ⟨hb, hnode⟩ | ⟨-, hnode⟩ | hnode
  · obtain ⟨rfl, rfl⟩ := (Opening.isGroup_node hn).quantified_eq_bracket hnode.symm
    obtain ⟨rfl, -, hwrapped⟩ := Opening.node_eq_bracket hn
    exact ⟨rfl, hwrapped, fun _ => ⟨hb, rfl⟩⟩
  · rw [← hnode] at hn
    obtain ⟨rfl, hnone, hwrapped⟩ := Opening.node_eq_bracket hn
    exact ⟨rfl, hwrapped, fun hne => absurd hnone hne⟩
  · cases hnode

/-- The test of a conditional that is the number or name of a group is written as it is kept,
unless a quantifier stands right behind it. -/
theorem Assembles.render_groupTest {inner : List Block} {test : Node} {yes : List Node}
    {branches : List (List Node)} {token : Text} (h : Assembles g inner ((test :: yes) :: branches))
    (hr : ∀ b ∈ inner, b.Regular) (ht : testToken test = some token)
    (hg : (g.resolve token).isSome) (h0 : g.resolve [] = none) :
    test.render = '(' :: token ++ [')'] ∨
      ∃ paren word close bs, inner = [paren, word, close] ++ bs ∧
        (∃ capture, paren.token = .openParen capture) ∧
        (g.resolve word.canonicalText).isSome ∧ close.token = .close ∧
        close.suffix.before = [] ∧ close.suffix.quantifier ≠ [] := by
  unfold testToken at ht
  split at ht <;> cases ht
  next kind isReference quantifier capture isTest =>
  by_cases hq : quantifier = []
  · subst hq
    exact .inl (by simp [Node.render, Wrapping.around])
  refine .inr ?_
  generalize hbr : (Node.sequence _ _ _ _ :: yes) :: branches = found at h
  cases h with
  | nil => cases hbr
  | bar => cases hbr
  | @leaf b nodes bs branch _ hb h =>
    obtain ⟨hbranch, rfl⟩ := List.cons.inj hbr
    have hnp := hb.no_parentheses (hr b (by simp))
    rcases List.append_eq_cons_iff.1 hbranch.symm with ⟨hnil, -⟩ | ⟨rest, hnodes, -⟩
    · exact absurd hnil (hb.ne_nil (hr b (by simp)))
    · rw [hnodes] at hnp
      exact absurd (by simp [Node.HasParentheses]) (hnp _ List.mem_cons_self)
  | @group opener closer opening inner bs level node branch branches ho hi hc hn h =>
    obtain ⟨hbranch, rfl⟩ := List.cons.inj hbr
    rw [List.append_assoc] at hbranch
    rcases List.append_eq_cons_iff.1 hbranch.symm with ⟨hnil, -⟩ | ⟨rest, hnodes, -⟩
    · exact absurd hnil (quantify_ne_nil node _)
    obtain ⟨rfl, hwrapped, hsuffix⟩ := Opening.eq_bracket_of_quantify hn hnodes
    obtain ⟨hb, rfl⟩ := hsuffix hq
    have hri : ∀ b ∈ inner, b.Regular := fun b hb => hr b (by simp [hb])
    rcases branches_eq_of_wrapped (hi.isUnit hri) hwrapped with hlevel | rfl
    · rw [hlevel] at hi
      obtain ⟨word, nodes, rfl, hy, hnodes⟩ := hi.exists_eq_singleton hri
      have hword : word.canonicalText = token := by
        rw [← hy.render (hri word (by simp)), hnodes]
        simp [Node.render]
      exact ⟨opener, word, closer, bs, rfl, ⟨_, Token.eq_openParen ho⟩, hword ▸ hg, hc, hb, hq⟩
    · rw [h0] at hg
      cases hg

end RegexAnatomy
