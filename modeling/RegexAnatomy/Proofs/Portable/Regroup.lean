import RegexAnatomy.Proofs.Options.Scope
import RegexAnatomy.Proofs.Portable.Restructured
import RegexAnatomy.Proofs.Reading.Blocks

/-! The groups that a change adds, as they are read. A branch in a group is read
under the front in which it would be read without one, and whatever it sets is
undone behind it; options at the start of the group bring about another mode.
What is left of a branch is told from its nodes: the mode behind it is what its
own option constructs set, and it is empty if it has no nodes. -/

namespace RegexAnatomy

section Options

variable {g : GroupTable} {f f' : Front} {t t' : Text} {branches : List (List Node)}

theorem optionText?_quantified {node : Node} (h : node.optionText? = none) (quantifier : Text) :
    (node.quantified quantifier).optionText? = none := by
  unfold Node.quantified
  split
  · exact h
  · split <;> rfl

theorem optionText?_quantify {node : Node} (h : node.optionText? = none) (b : Block) :
    ∀ n ∈ quantify node b.suffix, n.optionText? = none := by
  exact forall_mem_quantify b (fun item => (leaked_trivia item).2) h (optionText?_quantified h _)
    fun _ _ => rfl

/-- A token sets the options that its nodes set. -/
theorem Block.Yields.note_mode {b : Block} {nodes : List Node} (h : b.Yields g nodes)
    (hr : b.Regular) (f : Front) :
    (f.note b.token).mode = (nodes.filterMap Node.optionText?).foldl Mode.apply f.mode := by
  rcases h.cases hr with ⟨ht, rfl⟩ | ⟨text, ht, rfl⟩ |
    ⟨text, kind, isReference, tail, ht, -, -, hk, rfl⟩
  · rw [ht]
    rfl
  · rw [ht]
    rfl
  · have head : (Node.atom text kind isReference).optionText? = none := by
      have := hk.ne_inlineOptions
      cases kind <;> first | rfl | exact absurd rfl this
    have hnone : (quantifyTail (.atom text kind isReference) tail b.suffix).filterMap
        Node.optionText? = [] := by
      refine List.filterMap_eq_nil_iff.2 ?_
      exact forall_mem_quantifyTail b (fun item => (leaked_trivia item).2)
        (optionText?_quantify head b) head fun _ _ => ⟨rfl, optionText?_quantify rfl b⟩
    rw [hnone]
    cases htoken : b.token <;> rw [htoken] at ht <;> first | rfl | cases ht

/-- The mode behind a branch is what its own option constructs leave set. -/
theorem Reads.mode_eq {branch : List Node} (h : Reads g f t [branch] f' t') :
    f'.mode = (branch.filterMap Node.optionText?).foldl Mode.apply f.mode := by
  generalize hb : [branch] = found at h
  induction h generalizing branch with
  | stop => cases hb; rfl
  | bar h => cases hb; exact absurd rfl h.ne_nil
  | trivia hs h ih =>
    cases hb
    rw [ih rfl, List.filterMap_cons, (leaked_trivia _).2]
    rfl
  | leaf ht hl hs hc hy h ih =>
    cases hb
    have hmode := hy.note_mode (regular_block hl hs)
    rw [ih rfl, List.filterMap_append, List.foldl_append, ← hmode]
    rfl
  | group ht hl ho hi hn hs hc h ihi ih =>
    cases hb
    have hnode := (Node.Repeatable.group (Opening.isGroup_node hn)).leaked_eq.2
    rw [ih rfl, List.filterMap_append, List.filterMap_eq_nil_iff.2 (optionText?_quantify hnode _)]
    rfl

end Options

section Empty

variable {g : GroupTable} {f f' : Front} {t t' : Text} {branch : List Node}
  {branches : List (List Node)}

/-- The nodes of a token are written as the token with its quantifier. -/
theorem Block.Yields.render_block {token : Token} {repetition : Option Repetition}
    {nodes : List Node} (h : (token.block repetition).Yields g nodes)
    (hr : (token.block repetition).Regular) (hc : ∀ r ∈ repetition, r.IsCanonical) :
    renderAll nodes = token.text ++ (repetition.map Repetition.text).getD [] := by
  have htext := h.render hr
  rw [token.loose_block hc, List.append_nil, Block.canonicalText_eq hc] at htext
  rw [htext]
  simp [Block.text, Token.block, triviaText]

theorem Node.IsGroup.render_ne_nil {node : Node} (h : node.IsGroup) : node.render ≠ [] := by
  cases h with
  | @wrapped children wrapping isTest hw =>
    cases wrapping with
    | bare => exact absurd rfl hw
    | bracket => simp [Node.render, Wrapping.around]
    | construct => simp [Node.render, Wrapping.around]
  | conditional => simp [Node.render_conditional]

theorem Reads.render_ne_nil (h : Reads g f t (branch :: branches) f' t') (hne : branch ≠ []) :
    renderAll branch ≠ [] := by
  cases h with
  | stop => exact absurd rfl hne
  | bar => exact absurd rfl hne
  | trivia hs =>
    have := (splitTrivia_append hs).2
    simp [Trivia.node, this]
  | leaf ht hl hs hc hy =>
    rw [renderAll_append, hy.render_block (regular_block hl hs) hc]
    simp [(readLead_covers hl).2]
  | group ht hl ho hi hn hs hc =>
    rw [renderAll_append, renderAll_quantify_block hc]
    simp [(Opening.isGroup_node hn).render_ne_nil]

/-- A branch with something in it is no empty branch. -/
theorem Reads.isEmptyBranch_eq (h : Reads g f t (branch :: branches) f' t') (hne : branch ≠ []) :
    (branchNode branch).isEmptyBranch = false := by
  have hrender := h.render_ne_nil hne
  rw [← render_branchNode] at hrender
  generalize branchNode branch = node at hrender ⊢
  unfold Node.isEmptyBranch
  split
  · simpa [Node.render] using hrender
  next children quantifier _ =>
    cases children <;> cases quantifier <;> simp_all [Node.render, Wrapping.around]
  · rfl

/-- Nothing is passed where nothing is read. -/
theorem Reads.eq_of_nil (h : Reads g f t [[]] f' t') : f' = f := by
  generalize hb : [[]] = found at h
  cases h with
  | stop => rfl
  | bar h => exact absurd (List.cons.inj hb).2.symm h.ne_nil
  | trivia => cases hb
  | leaf ht hl hs hc hy =>
    have hnodes := hy.ne_nil (regular_block hl hs)
    rw [Token.loose_block _ hc, List.append_nil] at hnodes
    exact absurd (List.append_eq_nil_iff.1 (List.cons.inj hb).1.symm).1 hnodes
  | group =>
    have hnodes := (List.append_eq_nil_iff.1 (List.cons.inj hb).1.symm).1
    exact absurd hnodes (quantify_ne_nil _ _)

end Empty

section Unmarked

variable {g : GroupTable}

theorem unmarked_wrapped {node : Node} (h : node.markTest false = node) (wrapping : Wrapping) :
    (node.wrapped wrapping).markTest false = node.wrapped wrapping := by
  unfold Node.wrapped
  split
  · cases h
    rfl
  · rfl

theorem unmarked_quantified {node : Node} (h : node.markTest false = node) (quantifier : Text) :
    (node.quantified quantifier).markTest false = node.quantified quantifier := by
  unfold Node.quantified
  split
  · exact h
  · split
    · cases h
      rfl
    · cases h
      rfl
    · rfl

theorem unmarked_quantify {node : Node} (h : node.markTest false = node) (b : Block) :
    ∀ n ∈ quantify node b.suffix, n.markTest false = n := by
  exact forall_mem_quantify b (fun _ => rfl) h (unmarked_quantified h _) fun _ _ => rfl

theorem unmarked_bodyNode {branches : List (List Node)}
    (h : ∀ branch ∈ branches, ∀ n ∈ branch, n.markTest false = n) :
    (bodyNode branches).markTest false = bodyNode branches := by
  unfold bodyNode
  split
  next branch =>
    unfold branchNode
    split
    · rfl
    next node => exact h [node] (by simp) node (by simp)
    · rfl
  · rfl

theorem Opening.unmarked_node {opening : Opening} {start : Nat} {level : Level} {node : Node}
    (hn : opening.node g start level = .ok node)
    (h : ∀ branch ∈ level.branches, ∀ n ∈ branch, n.markTest false = n) :
    node.markTest false = node := by
  cases opening with
  | bracket => cases hn; exact unmarked_wrapped (unmarked_bodyNode h) _
  | group => cases hn; exact unmarked_wrapped (unmarked_bodyNode h) _
  | conditional =>
    obtain ⟨test, yes, no, -, hn⟩ := conditional_opening_eq_ok.1 hn
    obtain ⟨condition, -, rfl⟩ := conditionalNode_eq_ok.1 hn
    rfl

/-- Only the test that a conditional keeps is marked as one. -/
theorem Reads.unmarked {f f' : Front} {t t' : Text} {branches : List (List Node)}
    (h : Reads g f t branches f' t') :
    ∀ branch ∈ branches, ∀ n ∈ branch, n.markTest false = n := by
  induction h with
  | stop => simp
  | bar _ ih => simpa using ih
  | trivia hs h ih =>
    obtain ⟨h1, h2⟩ := List.forall_mem_cons.1 ih
    exact List.forall_mem_cons.2 ⟨List.forall_mem_cons.2 ⟨rfl, h1⟩, h2⟩
  | @leaf _ _ _ _ _ lead repetition nodes _ _ ht hl hs hc hy h ih =>
    obtain ⟨h1, h2⟩ := List.forall_mem_cons.1 ih
    refine List.forall_mem_cons.2 ⟨List.forall_mem_append.2 ⟨?_, h1⟩, h2⟩
    exact hy.forall_mem (regular_block hl hs) (fun _ => rfl) (fun _ _ => rfl)
      fun _ _ _ _ _ => ⟨rfl, unmarked_quantify rfl _⟩
  | group ht hl ho hi hn hs hc h ihi ih =>
    obtain ⟨h1, h2⟩ := List.forall_mem_cons.1 ih
    have hnode := unmarked_quantify (Opening.unmarked_node hn ihi)
    exact List.forall_mem_cons.2 ⟨List.forall_mem_append.2 ⟨hnode _, h1⟩, h2⟩

end Unmarked

section Changes

variable {g : GroupTable} {f f' inside : Front} {t t' a : Text} {branch rest : List Node}
  {branches : List (List Node)}

theorem startsToken_construct {free : Bool} {lead : Lead} (h : readConstruct t = .ok lead) :
    StartsToken free ('(' :: '?' :: t) :=
  .of_shut (shut_paren (startsComment_of_readConstruct h))

/-- A branch is read inside a group that neither captures nor sets options. -/
theorem Reads.grouped (hi : Reads g f.settle t [branch] inside (')' :: a))
    (h : Reads g (inside.leave f) a (rest :: branches) f' t') :
    Reads g f ('(' :: '?' :: ':' :: t) (((branchNode branch).grouped :: rest) :: branches)
      f' t' := by
  have hl : readLead f.context ('(' :: '?' :: ':' :: t) =
      .ok (some ⟨.openGroup { text := ['(', '?', ':'] }, t, false⟩) := rfl
  have hnote : f.note (.openGroup { text := ['(', '?', ':'] }) = f.settle := by
    simp [Front.note, Front.settle, opensOptions, isOptionChar]
  have hn : Opening.node g 0 { current := branch } (.group { text := ['(', '?', ':'] }) =
      .ok (branchNode branch).grouped := rfl
  have hs : splitRepetition f.mode.freeSpacing a = (none, a) :=
    splitRepetition_none h.no_quantifier.1
  have hread := Reads.group (startsToken_construct rfl) hl rfl (hnote ▸ hi) hn hs (by simp) h
  simpa [quantify, Block.suffix, Token.block, Node.quantified] using hread

/-- A branch is read behind an option construct. -/
theorem Reads.reopened {c : Char} {letters : Text} (hc : isOptionChar c)
    (hletters : ∀ d ∈ letters, isOptionChar d)
    (h : Reads g { f.settle with mode := f.mode.apply ('(' :: '?' :: c :: letters ++ [')']) } t
      (branch :: branches) f' t') :
    Reads g f ('(' :: '?' :: c :: letters ++ ')' :: t)
      ((.plain ('(' :: '?' :: c :: letters ++ [')']) .inlineOptions :: branch) :: branches)
      f' t' := by
  have hall : ∀ d ∈ c :: letters, isOptionChar d := List.forall_mem_cons.2 ⟨hc, hletters⟩
  have hoptions : readConstruct (c :: letters ++ ')' :: t) =
      .ok ⟨.options ('(' :: '?' :: c :: letters ++ [')']), t, false⟩ := by
    rw [List.cons_append, readConstruct_options hc]
    exact readOptions_eq_ok.2 ⟨c :: letters, t, hall, .inl ⟨rfl, rfl⟩⟩
  have hl : readLead f.context ('(' :: '?' :: c :: letters ++ ')' :: t) =
      .ok (some ⟨.options ('(' :: '?' :: c :: letters ++ [')']), t, false⟩) :=
    (Lead.AtFront.construct hoptions).readLead
  exact .leaf (startsToken_construct hoptions) hl rfl (by simp) (.options rfl) h

def BranchChange.onNodes (change : BranchChange) (branch : List Node) : List Node :=
  match change with
  | .keep => branch
  | .group => [(branchNode branch).grouped]
  | .reopen options => [((branchNode branch).afterOptions options).grouped]

theorem branchNode_onNodes (change : BranchChange) (branch : List Node) :
    branchNode (change.onNodes branch) = change.apply (branchNode branch) := by
  cases change <;> rfl

def BranchChange.leave (change : BranchChange) (f inside : Front) : Front :=
  match change with
  | .keep => inside
  | _ => inside.leave f

/-- Under `f` the change brings about the front under which the branch was read. -/
def BranchChange.Enters (change : BranchChange) (branch : List Node) (f f₁ : Front) : Prop :=
  match change with
  | .keep => f₁ = f
  | .group => f₁ = f.settle
  | .reopen options => f₁ = { f.settle with mode := f.mode.apply options } ∧ branch ≠ [] ∧
      (options ≠ [] → ∃ c letters, isOptionChar c ∧ (∀ d ∈ letters, isOptionChar d) ∧
        options = '(' :: '?' :: c :: letters ++ [')'])

theorem afterOptions_branchNode {options : Text} (ho : options ≠ []) (hne : branch ≠ [])
    (hu : ∀ n ∈ branch, n.IsUnit) : (branchNode branch).afterOptions options =
      branchNode (.plain options .inlineOptions :: branch) := by
  match branch with
  | [] => exact absurd rfl hne
  | [node] =>
    rw [branchNode, Node.afterOptions, if_neg ho]
    · rfl
    · exact (hu node (by simp)).ne_bare
  | node :: next :: nodes => simp [branchNode, Node.concat, Node.afterOptions, ho]

theorem reads_onNodes {change : BranchChange} {f₁ : Front}
    (h : ∀ s, IsStop s → s ≠ [] → Reads g f₁ (renderAll branch ++ s) [branch] inside s)
    (hf : change.Enters branch f f₁) {s : Text} (hs : IsStop s) (hne : s ≠ []) :
    Reads g f (renderAll (change.onNodes branch) ++ s) [change.onNodes branch]
      (change.leave f inside) s := by
  have hstop : ∀ t, IsStop (')' :: t) := by simp [IsStop]
  have group (hf : f₁ = f.settle) : Reads g f (renderAll [(branchNode branch).grouped] ++ s)
      [[(branchNode branch).grouped]] (inside.leave f) s := by
    subst hf
    have hread := Reads.grouped (h (')' :: s) (hstop s) (by simp)) (.stop hs)
    simpa [Node.render_grouped, groupedWhen, render_branchNode] using hread
  cases change with
  | keep =>
    subst hf
    exact h s hs hne
  | group => exact group hf
  | reopen options =>
    obtain ⟨hf, hbranch, hoptions⟩ := hf
    by_cases ho : options = []
    · subst ho
      exact group hf
    · obtain ⟨c, letters, hc, hletters, rfl⟩ := hoptions ho
      subst hf
      have hbody := h (')' :: s) (hstop s) (by simp)
      have hunit := hbody.isUnit branch (by simp)
      have hread := Reads.grouped (.reopened hc hletters hbody) (.stop hs)
      rw [BranchChange.onNodes, afterOptions_branchNode ho hbranch hunit]
      simpa [BranchChange.leave, Node.render_grouped, groupedWhen, render_branchNode] using hread

end Changes

end RegexAnatomy
