import Mathlib.Data.List.Forall2
import RegexAnatomy.Proofs.Assembly.GroupTest
import RegexAnatomy.Proofs.Canonical.Spelled

/-! A branch is recut when its literal text and its blanks are cut into leaves in
another way, and into no more of them. Parentheses, quantifiers and conditionals
around recut branches are the same up to their spelling. Only the test of a
conditional can tell: a test that is a single leaf may name a group. -/

namespace RegexAnatomy

def firstToken (branch : List Node) : Option Text := branch.head?.bind testToken

structure Recut (branch again : List Node) : Prop where
  spelled : spelledAll again = spelledAll branch
  length_le : again.length ≤ branch.length
  test : ∀ token, firstToken branch = some token → firstToken again = some token

/-- A node spelled like another one, which keeps its text if it is a leaf in plain parentheses. -/
structure Node.Recut (node again : Node) : Prop where
  spelled : again.spelled = node.spelled
  test : ∀ token, testToken node = some token → testToken again = some token

section Basic

variable {branch again nodes : List Node} {node : Node}

theorem Recut.refl (branch : List Node) : Recut branch branch := ⟨rfl, Nat.le_refl _, fun _ => id⟩

theorem Recut.trans {third : List Node} (h : Recut branch again) (h' : Recut again third) :
    Recut branch third :=
  ⟨h'.spelled.trans h.spelled, Nat.le_trans h'.length_le h.length_le,
    fun token ht => h'.test token (h.test token ht)⟩

theorem Recut.append_left (nodes : List Node) (h : Recut branch again) :
    Recut (nodes ++ branch) (nodes ++ again) := by
  refine ⟨by simp [h.spelled], by simpa using h.length_le, fun token ht => ?_⟩
  cases nodes with
  | nil => exact h.test token ht
  | cons => exact ht

/-- Behind a first node that is no test in parentheses. -/
theorem Recut.of_no_test (hs : spelledAll again = spelledAll (node :: nodes))
    (hl : again.length ≤ (node :: nodes).length) (ht : testToken node = none) :
    Recut (node :: nodes) again := by
  refine ⟨hs, hl, fun token h => ?_⟩
  rw [firstToken, List.head?_cons, Option.bind_some, ht] at h
  cases h

theorem Recut.eq_nil (h : Recut [] again) : again = [] := spelledAll_eq_nil.1 h.spelled

/-- A first node that is no text stays apart from what is behind it. -/
theorem Recut.uncons {first : Node} (h : Recut (node :: nodes) (first :: again))
    (hf : first.isText = false) : first.spelled = node.spelled ∧
      spelledAll again = spelledAll nodes := by
  have hs := h.spelled
  simp only [spelledAll] at hs
  obtain ⟨n, hn⟩ := exists_spelled_eq hf
  have hnode : node.isText = false := by
    obtain ⟨m, ms, hm⟩ := List.exists_cons_of_ne_nil node.spelled_ne_nil
    rw [hn, hm] at hs
    obtain ⟨rfl, -⟩ := List.cons.inj hs
    rw [← isText_spelled node n (by simp [hm]), isText_spelled first n (by simp [hn]), hf]
  obtain ⟨m, hm⟩ := exists_spelled_eq hnode
  rw [hn, hm] at hs ⊢
  obtain ⟨rfl, hrest⟩ := List.cons.inj hs
  exact ⟨rfl, hrest⟩

theorem exists_head_spelledAtom (text : Text) (kind : AtomKind) (isReference : Option Bool) :
    ∃ part, (spelledAtom text kind isReference).head? = some (.atom part kind isReference) := by
  unfold spelledAtom
  split
  next h =>
    obtain ⟨c, text, rfl⟩ := List.exists_cons_of_ne_nil h.2
    exact ⟨[c], rfl⟩
  · exact ⟨text, rfl⟩

theorem renderAll_spelledAtom (text : Text) (kind : AtomKind) (isReference : Option Bool) :
    renderAll (spelledAtom text kind isReference) = text := by
  unfold spelledAtom
  split
  · simp [renderAll_eq, List.flatMap_map, Node.render]
  · simp [Node.render]

/-- A node that is spelled like an atom is that atom. -/
theorem eq_atom_of_spelled {text : Text} {kind : AtomKind} {isReference : Option Bool}
    (h : node.spelled = spelledAtom text kind isReference) :
    node = .atom text kind isReference := by
  obtain ⟨part, hpart⟩ := exists_head_spelledAtom text kind isReference
  rw [← h] at hpart
  cases node with
  | atom text' kind' isReference' =>
    obtain ⟨part', hpart'⟩ := exists_head_spelledAtom text' kind' isReference'
    have hhead : some (Node.atom part' kind' isReference') = some (.atom part kind isReference) :=
      hpart'.symm.trans hpart
    have htext := congrArg renderAll h
    rw [Node.spelled, renderAll_spelledAtom, renderAll_spelledAtom] at htext
    cases hhead
    rw [htext]
  | _ => cases hpart

end Basic

def spelledBody : List (List Node) → List Node
  | [[]] => [.empty]
  | [branch] => branch
  | branches => [.alternation (branches.map branchNode)]

section Bodies

variable {branches again : List (List Node)}

theorem length_spelled_pos (node : Node) : 0 < node.spelled.length :=
  List.length_pos_iff.2 node.spelled_ne_nil

theorem branchNode_spelled (branch : List Node) :
    branchNode (branchNode branch).spelled = branchNode (spelledAll branch) := by
  rcases branch with - | ⟨node, - | ⟨next, nodes⟩⟩
  · rfl
  · simp [branchNode, spelledAll]
  · have hconcat {nodes : List Node} (h : 2 ≤ nodes.length) : branchNode nodes = .concat nodes := by
      rcases nodes with - | ⟨first, - | ⟨second, nodes⟩⟩
      · simp at h
      · simp at h
      · rfl
    have hlength : 2 ≤ (spelledAll (node :: next :: nodes)).length := by
      have h1 := length_spelled_pos node
      have h2 := length_spelled_pos next
      simp only [spelledAll, List.length_append]
      omega
    rw [hconcat hlength]
    rfl

theorem bodyNode_spelled (branches : List (List Node)) :
    branchNode (bodyNode branches).spelled = bodyNode (branches.map spelledAll) := by
  unfold bodyNode
  split
  next branch => exact branchNode_spelled branch
  next hne =>
    split
    next branch hone =>
      obtain ⟨b, rfl, -⟩ := List.map_eq_singleton_iff.1 hone
      exact absurd rfl (hne b)
    next =>
      rw [Node.spelled, spelledEach_eq, List.map_map, List.map_map]
      exact congrArg Node.alternation (List.map_congr_left fun b _ => branchNode_spelled b)

/-- Parentheses around a body, spelled. -/
theorem spelled_wrapped (hu : ∀ branch ∈ branches, ∀ n ∈ branch, n.IsUnit) (wrapping : Wrapping) :
    ((bodyNode branches).wrapped wrapping).spelled =
      [.sequence (spelledBody (branches.map spelledAll)) [] wrapping false] := by
  match branches with
  | [] => rfl
  | [[]] => rfl
  | [[node]] =>
    have hnode : node.IsUnit := hu [node] (by simp) node (by simp)
    obtain ⟨n, ns, hn⟩ := List.exists_cons_of_ne_nil node.spelled_ne_nil
    simp [bodyNode, branchNode, hnode.wrapped_eq, Node.spelled, spelledAll, spelledBody, hn]
  | [node :: next :: nodes] =>
    obtain ⟨n, ns, hn⟩ := List.exists_cons_of_ne_nil node.spelled_ne_nil
    simp [bodyNode, branchNode, Node.concat, Node.wrapped, Node.spelled, spelledAll, spelledBody,
      hn]
  | first :: second :: rest =>
    simp [bodyNode, Node.wrapped, Node.spelled, spelledAll, spelledEach_eq, spelledBody,
      branchNode_spelled]

theorem map_spelledAll_eq (h : List.Forall₂ Recut branches again) :
    again.map spelledAll = branches.map spelledAll := by
  induction h with
  | nil => rfl
  | cons h _ ih => rw [List.map_cons, List.map_cons, h.spelled, ih]

/-- Plain parentheses around a single leaf are still around that leaf. -/
theorem testToken_wrapped {capture : Option Nat} {token : Text}
    (hu : ∀ branch ∈ branches, ∀ n ∈ branch, n.IsUnit) (h : List.Forall₂ Recut branches again)
    (ht : testToken ((bodyNode branches).wrapped (.bracket capture)) = some token) :
    testToken ((bodyNode again).wrapped (.bracket capture)) = some token := by
  cases h with
  | nil => exact ht
  | @cons branch first branches again h hrest =>
    cases hrest with
    | cons => cases ht
    | nil =>
      rcases branch with - | ⟨node, - | ⟨next, nodes⟩⟩
      · rwa [h.eq_nil]
      · have hnode : node.IsUnit := hu [node] (by simp) node (by simp)
        have hlength := h.length_le
        rw [bodyNode, branchNode, hnode.wrapped_eq] at ht
        rcases first with - | ⟨n, - | ⟨n', ns⟩⟩
        · cases spelledAll_eq_nil.1 h.spelled.symm
        · have hs : n.spelled = node.spelled := by simpa [spelledAll] using h.spelled
          cases node with
          | atom text kind isReference =>
            rw [eq_atom_of_spelled hs]
            simpa [testToken, bodyNode, branchNode, Node.wrapped] using ht
          | _ => cases ht
        · simp at hlength
      · simp [bodyNode, branchNode, Node.concat, Node.wrapped, testToken] at ht

theorem Node.Recut.wrapped (hu : ∀ branch ∈ branches, ∀ n ∈ branch, n.IsUnit)
    (hu' : ∀ branch ∈ again, ∀ n ∈ branch, n.IsUnit)
    (h : List.Forall₂ RegexAnatomy.Recut branches again) (wrapping : Wrapping) :
    Node.Recut ((bodyNode branches).wrapped wrapping) ((bodyNode again).wrapped wrapping) := by
  refine ⟨?_, fun token ht => ?_⟩
  · rw [spelled_wrapped hu, spelled_wrapped hu', map_spelledAll_eq h]
  · cases wrapping with
    | bracket => exact testToken_wrapped hu h ht
    | _ =>
      unfold Node.wrapped at ht
      split at ht <;> simp [testToken] at ht

end Bodies

section Quantifiers

variable {node again : Node} {quantifier : Text}

theorem testToken_quantified (h : node.IsGroup) :
    testToken (node.quantified quantifier) = testToken node := by
  unfold Node.quantified
  split
  · rfl
  · cases h with
    | @wrapped children wrapping isTest hw =>
      cases wrapping with
      | bare => exact absurd rfl hw
      | _ => cases children with
        | nil => rfl
        | cons child children => cases child <;> cases children <;> rfl
    | conditional => rfl

theorem quantified_spelled (hn : node.IsGroup) (hn' : again.IsGroup)
    (h : again.spelled = node.spelled) :
    (again.quantified quantifier).spelled = (node.quantified quantifier).spelled := by
  by_cases hq : quantifier = []
  · simpa [Node.quantified, hq] using h
  cases hn with
  | @wrapped children wrapping isTest hw =>
    cases hn' with
    | @wrapped children' wrapping' isTest' =>
      simp only [Node.spelled, List.cons.injEq, Node.sequence.injEq, and_true, true_and] at h
      obtain ⟨hparts, rfl, rfl⟩ := h
      cases wrapping' with
      | bare => exact absurd rfl hw
      | _ => simp [Node.quantified, hq, Node.spelled, hparts]
    | conditional => cases h
  | conditional =>
    cases hn' with
    | wrapped => cases h
    | conditional => simp [Node.quantified, hq, Node.spelled, spelledAll] at h ⊢; exact h

theorem Node.Recut.quantify {branch rest : List Node} (h : node.Recut again) (hn : node.IsGroup)
    (hn' : again.IsGroup) (s : Suffix) (hr : RegexAnatomy.Recut branch rest) :
    RegexAnatomy.Recut (RegexAnatomy.quantify node s ++ branch)
      (RegexAnatomy.quantify again s ++ rest) := by
  unfold RegexAnatomy.quantify
  split
  · refine ⟨?_, by simpa using hr.length_le, ?_⟩
    · simp [spelledAll, quantified_spelled hn hn' h.spelled, hr.spelled]
    · simpa [firstToken, testToken_quantified hn, testToken_quantified hn'] using h.test
  split
  · refine ⟨?_, by simpa using hr.length_le, ?_⟩
    · simp [spelledAll, h.spelled, hr.spelled]
    · simpa [firstToken] using h.test
  · refine .of_no_test ?_ (by simpa using hr.length_le) (by simp [testToken])
    simp [spelledAll, Node.spelled, h.spelled, hr.spelled]

end Quantifiers

def Node.gluedText? : Node → Option Text
  | .sequence children _ (.bracket _) _ =>
    if children.all (·.isAtom .literal) ∨ children.all (·.isAtom .blanks) then
      some (renderAll children)
    else none
  | _ => none

/-- The test of a conditional is no single leaf, but if its literal text was cut otherwise, it would
be one, and the number or name of a group. -/
def Node.testGlues (g : GroupTable) : Node → Bool
  | .conditional (.expression test) .. =>
    (test.gluedText?.map fun text => startsWithDigit text || (g.resolve text).isSome).getD false
  | _ => false

section Conditionals

variable {g : GroupTable} {test again : Node} {condition : Condition} {start : Nat}

theorem markTest_spelled (node : Node) (isTest : Bool) :
    (node.markTest isTest).spelled = node.spelled.map (Node.markTest isTest) := by
  cases node with
  | atom text kind isReference =>
    unfold Node.markTest Node.spelled spelledAtom
    split <;> simp [Function.comp_def]
  | _ => rfl

theorem isConstruct_spelled (node : Node) : node.spelled.any isConstruct = isConstruct node := by
  cases node with
  | atom text kind isReference =>
    unfold Node.spelled spelledAtom
    split <;> simp [isConstruct, Function.comp_def]
  | sequence children quantifier wrapping isTest =>
    cases wrapping <;> simp [Node.spelled, isConstruct]
  | _ => simp [Node.spelled, isConstruct]

theorem renderAll_spelledAll {kind : AtomKind} {nodes : List Node}
    (h : nodes.all (·.isAtom kind)) : renderAll (spelledAll nodes) = renderAll nodes := by
  induction nodes with
  | nil => rfl
  | cons node nodes ih =>
    obtain ⟨hnode, hnodes⟩ := List.all_cons.symm.trans h |> Bool.and_eq_true_iff.1
    cases node with
    | atom text kind isReference =>
      simp [spelledAll, Node.spelled, renderAll_spelledAtom, Node.render, ih hnodes]
    | _ => cases hnode

/-- Several nodes are spelled like one leaf only if all are literal text, or all are blanks. -/
theorem all_isAtom_of_spelledAtom {text : Text} {kind : AtomKind} {isReference : Option Bool}
    {node next : Node} {nodes : List Node}
    (h : spelledAtom text kind isReference = spelledAll (node :: next :: nodes)) :
    (kind = .literal ∨ kind = .blanks) ∧ (node :: next :: nodes).all (·.isAtom kind) := by
  have hk : (kind = .literal ∨ kind = .blanks) ∧ text ≠ [] := by
    by_contra hk
    have hlength := congrArg List.length h
    have h1 := length_spelled_pos node
    have h2 := length_spelled_pos next
    rw [spelledAtom, if_neg hk] at hlength
    simp only [spelledAll, List.length_append, List.length_singleton] at hlength
    omega
  refine ⟨hk.1, List.all_eq_true.2 fun n hn => ?_⟩
  obtain ⟨m, ms, hm⟩ := List.exists_cons_of_ne_nil n.spelled_ne_nil
  have hmem : m ∈ (Node.atom text kind isReference).spelled := by
    rw [Node.spelled, h, spelledAll_eq]
    exact List.mem_flatMap.2 ⟨n, hn, by simp [hm]⟩
  rw [← isAtom_spelled kind n m (by simp [hm]), isAtom_spelled kind _ m hmem]
  simp [Node.isAtom]

/-- What is a single leaf in plain parentheses was one, or could have been one. -/
theorem testToken_of_spelled {token : Text} (h : again.spelled = test.spelled)
    (ht : testToken again = some token) :
    testToken test = some token ∨ test.gluedText? = some token := by
  unfold testToken at ht
  split at ht <;> cases ht
  next kind isReference quantifier capture isTest =>
  cases test with
  | sequence children quantifier' wrapping isTest' =>
    simp only [Node.spelled, spelledAll, List.append_nil, List.cons.injEq, Node.sequence.injEq,
      and_true] at h
    obtain ⟨hparts, rfl, rfl, rfl⟩ := h
    rcases children with - | ⟨node, - | ⟨next, nodes⟩⟩
    · exact absurd hparts (spelledAtom_ne_nil token kind isReference)
    · have hnode : node = .atom token kind isReference :=
        eq_atom_of_spelled (by simpa [spelledAll] using hparts.symm)
      exact .inl (by rw [hnode]; rfl)
    · obtain ⟨hkind, hall⟩ := all_isAtom_of_spelledAtom hparts
      have htext := congrArg renderAll hparts
      rw [renderAll_spelledAtom, renderAll_spelledAll hall] at htext
      refine .inr ((if_pos ?_).trans (congrArg some htext.symm))
      rcases hkind with rfl | rfl
      · exact .inl hall
      · exact .inr hall
  | atom text' kind' isReference' => cases eq_atom_of_spelled h
  | _ => simp [Node.spelled] at h

theorem testCondition_recut (h : test.Recut again)
    (hc : testCondition g start test = .ok condition)
    (hglue : ∀ marked, condition = .expression marked → ∀ token ∈ marked.gluedText?,
      g.resolve token = none ∧ startsWithDigit token = false) :
    ∃ condition', testCondition g start again = .ok condition' ∧
      condition'.spelled = condition.spelled ∧
      condition'.testIsConstruct again = condition.testIsConstruct test := by
  rcases testCondition_eq_ok.1 hc with ⟨token, id, ht, hid, rfl⟩ | ⟨hnot, rfl⟩
  · exact ⟨.group id, testCondition_eq_ok.2 (.inl ⟨token, id, h.test token ht, hid, rfl⟩), rfl, rfl⟩
  · refine ⟨.expression (again.markTest true), testCondition_eq_ok.2 (.inr ⟨?_, rfl⟩), ?_, ?_⟩
    · intro token ht
      rcases testToken_of_spelled h.spelled ht with ht | ht
      · exact hnot token ht
      · refine hglue _ rfl token ?_
        cases test with
        | sequence _ _ wrapping => cases wrapping <;> exact ht
        | _ => cases ht
    · simp [Condition.spelled, markTest_spelled, h.spelled]
    · simp only [Condition.testIsConstruct]
      rw [← isConstruct_spelled, ← isConstruct_spelled, h.spelled]

variable {branches branches' : List (List Node)}

theorem exists_recut_no {no : Option (List Node)} {others : List (List Node)}
    (h : List.Forall₂ RegexAnatomy.Recut no.toList others) :
    ∃ no', others = Option.toList no' ∧ no'.isSome = no.isSome ∧
      spelledNo (no'.map branchNode) = spelledNo (no.map branchNode) := by
  cases no with
  | none =>
    cases h
    exact ⟨none, rfl, rfl, rfl⟩
  | some no =>
    obtain _ | ⟨hno, hnil⟩ := h
    cases hnil
    exact ⟨some _, rfl, rfl, by simp [spelledNo, branchNode_spelled, hno.spelled]⟩

/-- The conditional that is made of recut branches. `hfirst` says that what stands in the place of
the test is no text. -/
theorem conditionalNode_recut {level level' : Level} {node : Node}
    (hn : Opening.conditional.node g start level = .ok node)
    (h : List.Forall₂ RegexAnatomy.Recut level.branches level'.branches)
    (hfirst : ∀ first rest others, level'.branches = (first :: rest) :: others →
      first.isText = false) (hglue : node.testGlues g = false) :
    ∃ node', Opening.conditional.node g start level' = .ok node' ∧ node.Recut node' := by
  obtain ⟨test, yes, no, hlevel, hn⟩ := conditional_opening_eq_ok.1 hn
  obtain ⟨condition, hc, rfl⟩ := conditionalNode_eq_ok.1 hn
  rw [hlevel] at h
  generalize hlevel' : level'.branches = branches' at h
  obtain _ | ⟨hbranch, hno⟩ := h
  next branch' others' =>
  obtain ⟨test', yes', rfl⟩ : ∃ test' yes', branch' = test' :: yes' := by
    refine List.exists_cons_of_ne_nil fun hnil => ?_
    subst hnil
    cases spelledAll_eq_nil.1 hbranch.spelled.symm
  obtain ⟨htest, hyes⟩ := hbranch.uncons (hfirst _ _ _ hlevel')
  obtain ⟨no', rfl, hsome, hspelledNo⟩ := exists_recut_no hno
  have hrecut : test.Recut test' := ⟨htest, hbranch.test⟩
  obtain ⟨condition', hc', hspelled, hconstruct⟩ := testCondition_recut hrecut hc (by
    rintro marked rfl token ht
    simpa [Node.testGlues, Option.mem_def.1 ht, and_comm] using hglue)
  refine ⟨_, conditional_opening_eq_ok.2 ⟨test', yes', no', hlevel',
    conditionalNode_eq_ok.2 ⟨condition', hc', rfl⟩⟩, ?_, fun token ht => by cases ht⟩
  simp [Node.spelled, hspelled, branchNode_spelled, hyes, hsome, hspelledNo, hconstruct]

theorem Opening.node_recut {opening : Opening} {level : Level} {node : Node}
    (hn : opening.node g start level = .ok node)
    (h : List.Forall₂ RegexAnatomy.Recut level.branches branches')
    (hu : ∀ branch ∈ level.branches, ∀ n ∈ branch, n.IsUnit)
    (hu' : ∀ branch ∈ branches', ∀ n ∈ branch, n.IsUnit)
    (hfirst : opening = .conditional → ∀ first rest others,
      branches' = (first :: rest) :: others → first.isText = false)
    (hglue : node.testGlues g = false) :
    ∃ level' node', level'.branches = branches' ∧ opening.node g start level' = .ok node' ∧
      node.Recut node' := by
  have hne : branches' ≠ [] := by
    have hlength := h.length_eq
    rintro rfl
    simp [Level.branches] at hlength
  obtain ⟨level', rfl⟩ := Level.exists_branches_eq hne
  cases opening with
  | bracket capture =>
    cases hn
    exact ⟨level', _, rfl, rfl, .wrapped hu hu' h _⟩
  | group opener =>
    cases hn
    exact ⟨level', _, rfl, rfl, .wrapped hu hu' h _⟩
  | conditional =>
    obtain ⟨node', hn', hrecut⟩ := conditionalNode_recut hn h (hfirst rfl) hglue
    exact ⟨level', node', rfl, hn', hrecut⟩

end Conditionals

end RegexAnatomy
