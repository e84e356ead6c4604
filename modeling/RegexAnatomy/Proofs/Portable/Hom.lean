import Mathlib.Data.List.Basic
import RegexAnatomy.Node.OfBlocks
import RegexAnatomy.Proofs.Tree

/-! Maps of trees that reach the conditionals and nothing else. Such a map commutes
with every way in which a tree is put together but for a conditional, and what a
plan looks at it keeps: a node its kind and its wrapping, a branch its units. To
compare two of them is to compare what they make of conditionals. -/

namespace RegexAnatomy

/-- A conditional goes to a conditional, and any other node stays what it is. -/
structure TreeHom (F : Node → Node) : Prop where
  map_atom : ∀ text kind isReference,
    F (.atom text kind isReference) = .atom text kind isReference
  map_sequence : ∀ children quantifier wrapping isTest,
    F (.sequence children quantifier wrapping isTest) =
      .sequence (children.map F) quantifier wrapping isTest
  map_alternation : ∀ branches, F (.alternation branches) = .alternation (branches.map F)
  map_conditional : ∀ condition yes no hasBar testIsConstruct p,
    ∃ condition' yes' no' hasBar' testIsConstruct' p',
      F (.conditional condition yes no hasBar testIsConstruct p) =
        .conditional condition' yes' no' hasBar' testIsConstruct' p'

namespace TreeHom

variable {F : Node → Node}

theorem id : TreeHom id where
  map_atom _ _ _ := rfl
  map_sequence _ _ _ _ := by rw [List.map_id]; rfl
  map_alternation _ := by rw [List.map_id]; rfl
  map_conditional _ _ _ _ _ _ := ⟨_, _, _, _, _, _, rfl⟩

theorem comp {G : Node → Node} (hG : TreeHom G) (hF : TreeHom F) :
    TreeHom fun node => G (F node) where
  map_atom text kind isReference := by rw [hF.map_atom, hG.map_atom]
  map_sequence children quantifier wrapping isTest := by
    rw [hF.map_sequence, hG.map_sequence, List.map_map]
    rfl
  map_alternation branches := by
    rw [hF.map_alternation, hG.map_alternation, List.map_map]
    rfl
  map_conditional condition yes no hasBar testIsConstruct p := by
    obtain ⟨_, _, _, _, _, _, h⟩ :=
      hF.map_conditional condition yes no hasBar testIsConstruct p
    rw [h]
    exact hG.map_conditional _ _ _ _ _ _

variable (hF : TreeHom F)
include hF

section Assembled

theorem map_trivia (items : List Trivia) :
    (items.map Trivia.node).map F = items.map Trivia.node := by
  rw [List.map_map]
  exact List.map_congr_left fun item _ => hF.map_atom ..

theorem map_wrapped (node : Node) (wrapping : Wrapping) :
    F (node.wrapped wrapping) = (F node).wrapped wrapping := by
  cases node with
  | atom => simp [Node.wrapped, hF.map_atom, hF.map_sequence]
  | sequence children quantifier inner isTest =>
    cases quantifier <;> cases inner <;> simp [Node.wrapped, hF.map_sequence]
  | alternation => simp [Node.wrapped, hF.map_alternation, hF.map_sequence]
  | conditional condition yes no hasBar testIsConstruct p =>
    obtain ⟨_, _, _, _, _, _, h⟩ :=
      hF.map_conditional condition yes no hasBar testIsConstruct p
    simp [Node.wrapped, hF.map_sequence, h]

theorem map_grouped (node : Node) : F node.grouped = (F node).grouped :=
  hF.map_wrapped node .nonCapturing

theorem map_quantified (node : Node) (quantifier : Text) :
    F (node.quantified quantifier) = (F node).quantified quantifier := by
  by_cases hq : quantifier = []
  · simp [Node.quantified, hq]
  · cases node with
    | atom => simp [Node.quantified, hq, hF.map_atom, hF.map_sequence]
    | sequence children before inner isTest =>
      cases before <;> cases inner <;> simp [Node.quantified, hq, hF.map_sequence]
    | alternation => simp [Node.quantified, hq, hF.map_alternation, hF.map_sequence]
    | conditional condition yes no hasBar testIsConstruct p =>
      obtain ⟨_, _, _, _, _, _, h⟩ :=
        hF.map_conditional condition yes no hasBar testIsConstruct p
      simp [Node.quantified, hq, hF.map_sequence, h]

theorem map_markTest (node : Node) (isTest : Bool) :
    F (node.markTest isTest) = (F node).markTest isTest := by
  cases node with
  | atom => simp [Node.markTest, hF.map_atom]
  | sequence => simp [Node.markTest, hF.map_sequence]
  | alternation => simp [Node.markTest, hF.map_alternation]
  | conditional condition yes no hasBar testIsConstruct p =>
    obtain ⟨_, _, _, _, _, _, h⟩ :=
      hF.map_conditional condition yes no hasBar testIsConstruct p
    simp [Node.markTest, h]

theorem map_quantify (node : Node) {s : Suffix} {items : List Trivia}
    (hb : s.before = items.map Trivia.node) : (quantify node s).map F = quantify (F node) s := by
  unfold quantify
  rw [hb]
  split
  · simp [hF.map_quantified]
  split
  · rw [List.map_cons, hF.map_trivia]
  · rw [List.map_singleton, hF.map_sequence, List.map_cons, hF.map_trivia]

theorem map_branchNode (branch : List Node) :
    F (branchNode branch) = branchNode (branch.map F) := by
  match branch with
  | [] => exact hF.map_atom ..
  | [node] => rfl
  | node :: next :: nodes => exact hF.map_sequence ..

theorem map_bodyNode (branches : List (List Node)) :
    F (bodyNode branches) = bodyNode (branches.map (·.map F)) := by
  match branches with
  | [] => exact hF.map_alternation []
  | [branch] => exact hF.map_branchNode branch
  | branch :: next :: branches =>
    have hbranches := hF.map_alternation ((branch :: next :: branches).map branchNode)
    rw [List.map_map] at hbranches
    rw [bodyNode, hbranches, bodyNode, List.map_map]
    · simp [hF.map_branchNode, Function.comp_def]
    all_goals simp

theorem map_afterOptions (options : Text) (node : Node) :
    F (node.afterOptions options) = (F node).afterOptions options := by
  by_cases ho : options = []
  · simp [Node.afterOptions, ho]
  · cases node with
    | atom => simp [Node.afterOptions, ho, Node.concat, Node.plain, hF.map_atom, hF.map_sequence]
    | sequence children quantifier inner isTest =>
      cases quantifier <;> cases inner <;>
        simp [Node.afterOptions, ho, Node.concat, Node.plain, hF.map_atom, hF.map_sequence]
    | alternation =>
      simp [Node.afterOptions, ho, Node.concat, Node.plain, hF.map_atom, hF.map_sequence,
        hF.map_alternation]
    | conditional condition yes no hasBar testIsConstruct p =>
      obtain ⟨_, _, _, _, _, _, h⟩ :=
        hF.map_conditional condition yes no hasBar testIsConstruct p
      simp [Node.afterOptions, ho, Node.concat, Node.plain, hF.map_atom, hF.map_sequence, h]

theorem map_apply (change : BranchChange) (branch : Node) :
    F (change.apply branch) = change.apply (F branch) := by
  cases change with
  | keep => rfl
  | group => exact hF.map_grouped branch
  | reopen options =>
    rw [BranchChange.apply, hF.map_grouped, hF.map_afterOptions]
    rfl

end Assembled

section Kept

/-- What does not look into the parts of a node is kept. -/
theorem apply_map {α : Type} {look : Node → α}
    (hsequence : ∀ children quantifier wrapping isTest,
      look (.sequence (children.map F) quantifier wrapping isTest) =
        look (.sequence children quantifier wrapping isTest))
    (halternation : ∀ branches, look (.alternation (branches.map F)) = look (.alternation branches))
    (hconditional : ∀ condition yes no hasBar testIsConstruct p condition' yes' no' hasBar'
      testIsConstruct' p', look (.conditional condition yes no hasBar testIsConstruct p) =
        look (.conditional condition' yes' no' hasBar' testIsConstruct' p')) (node : Node) :
    look (F node) = look node := by
  cases node with
  | atom => rw [hF.map_atom]
  | sequence => rw [hF.map_sequence, hsequence]
  | alternation => rw [hF.map_alternation, halternation]
  | conditional condition yes no hasBar testIsConstruct p =>
    obtain ⟨_, _, _, _, _, _, h⟩ :=
      hF.map_conditional condition yes no hasBar testIsConstruct p
    rw [h]
    exact hconditional ..

theorem isConstruct_map (node : Node) : isConstruct (F node) = isConstruct node :=
  hF.apply_map (fun _ _ wrapping _ => by cases wrapping <;> rfl) (fun _ => rfl) (by intros; rfl)
    node

theorem isOptionGroup_map (node : Node) : (F node).isOptionGroup = node.isOptionGroup :=
  hF.apply_map (fun _ _ wrapping _ => by cases wrapping <;> rfl) (fun _ => rfl) (by intros; rfl)
    node

theorem isAtom_map (kind : AtomKind) (node : Node) : (F node).isAtom kind = node.isAtom kind :=
  hF.apply_map (by intros; rfl) (fun _ => rfl) (by intros; rfl) node

theorem optionText?_map (node : Node) : (F node).optionText? = node.optionText? :=
  hF.apply_map (by intros; rfl) (fun _ => rfl) (by intros; rfl) node

theorem isEmptyBranch_map (branch : Node) : (F branch).isEmptyBranch = branch.isEmptyBranch :=
  hF.apply_map (fun _ _ wrapping _ => by cases wrapping <;> simp [Node.isEmptyBranch])
    (fun _ => rfl) (by intros; rfl) branch

theorem testToken_map (node : Node) : testToken (F node) = testToken node := by
  refine hF.apply_map (fun children _ wrapping _ => ?_) (fun _ => rfl) (by intros; rfl) node
  match children with
  | [] => rfl
  | _ :: _ :: _ => simp [testToken]
  | [child] =>
    cases child with
    | atom => simp [hF.map_atom]
    | sequence => simp [hF.map_sequence, testToken]
    | alternation => simp [hF.map_alternation, testToken]
    | conditional condition yes no hasBar testIsConstruct p =>
      obtain ⟨_, _, _, _, _, _, h⟩ :=
        hF.map_conditional condition yes no hasBar testIsConstruct p
      simp [h, testToken]

theorem setsOptions_map (node : Node) : (F node).setsOptions = node.setsOptions := by
  rw [Node.setsOptions, hF.isAtom_map, hF.isOptionGroup_map, Node.setsOptions]

theorem units_map (node : Node) : (F node).units = node.units.map F := by
  cases node with
  | atom => simp [Node.units, hF.map_atom]
  | sequence children quantifier wrapping isTest =>
    cases wrapping <;> simp [Node.units, hF.map_sequence]
  | alternation => simp [Node.units, hF.map_alternation]
  | conditional condition yes no hasBar testIsConstruct p =>
    obtain ⟨_, _, _, _, _, _, h⟩ :=
      hF.map_conditional condition yes no hasBar testIsConstruct p
    simp [Node.units, h]

theorem branchSetsOptions_map (branch : Node) :
    (F branch).branchSetsOptions = branch.branchSetsOptions := by
  simp only [Node.branchSetsOptions, hF.units_map, List.any_map, Function.comp_def,
    hF.setsOptions_map]

theorem branchOptions_map (branch : Node) : (F branch).branchOptions = branch.branchOptions := by
  simp only [Node.branchOptions, hF.units_map, List.filterMap_map, Function.comp_def,
    hF.optionText?_map]

theorem planNo_map (yes no : Node) : planNo (F yes) (F no) = planNo yes no := by
  simp only [planNo, hF.branchOptions_map, hF.branchSetsOptions_map, hF.isEmptyBranch_map]

/-- Whatever becomes of the parts of a conditional, its plan stays. -/
theorem planConditional_map {condition condition' : Condition}
    (hcondition : condition'.setsOptions = condition.setsOptions) (yes : Node)
    (no : Option Node) :
    planConditional condition' (F yes) (no.map F) = planConditional condition yes no := by
  cases no <;>
    simp only [planConditional, hcondition, hF.branchSetsOptions_map, hF.planNo_map,
      Option.map_none, Option.map_some]

end Kept

section Agreement

variable {G : Node → Node} (hG : TreeHom G) {Q : Node → Prop}
include hG

/-- Two such maps agree on a tree if they do on its conditionals. -/
theorem congr (hconditional : ∀ condition yes no hasBar testIsConstruct p,
      Q (.conditional condition yes no hasBar testIsConstruct p) →
      (∀ test, condition = .expression test → F test = G test) → F yes = G yes →
      (∀ n ∈ no, F n = G n) → F (.conditional condition yes no hasBar testIsConstruct p) =
        G (.conditional condition yes no hasBar testIsConstruct p)) {tree : Node} :
    tree.Every Q → F tree = G tree := by
  induction tree using Node.induction with
  | atom => exact fun _ => (hF.map_atom ..).trans (hG.map_atom ..).symm
  | sequence children quantifier wrapping isTest ih =>
    intro h
    have h := (every_sequence.1 h).2
    rw [hF.map_sequence, hG.map_sequence, List.map_congr_left fun c hc => ih c hc (h c hc)]
  | alternation branches ih =>
    intro h
    have h := (every_alternation.1 h).2
    rw [hF.map_alternation, hG.map_alternation, List.map_congr_left fun b hb => ih b hb (h b hb)]
  | conditional condition yes no hasBar testIsConstruct p iht ihy ihn =>
    intro h
    obtain ⟨hself, ht, hy, hn⟩ := every_conditional.1 h
    exact hconditional _ _ _ _ _ _ hself (fun test he => iht test he (ht test he)) (ihy hy)
      fun n he => ihn n he (hn n he)

/-- What they make of a tree is written the same if it is with every conditional. -/
theorem render_congr (hconditional : ∀ condition yes no hasBar testIsConstruct p,
      Q (.conditional condition yes no hasBar testIsConstruct p) →
      (∀ test, condition = .expression test → (F test).render = (G test).render) →
      (F yes).render = (G yes).render → (∀ n ∈ no, (F n).render = (G n).render) →
      (F (.conditional condition yes no hasBar testIsConstruct p)).render =
        (G (.conditional condition yes no hasBar testIsConstruct p)).render) {tree : Node} :
    tree.Every Q → (F tree).render = (G tree).render := by
  induction tree using Node.induction with
  | atom => exact fun _ => by rw [hF.map_atom, hG.map_atom]
  | sequence children quantifier wrapping isTest ih =>
    intro h
    have h := (every_sequence.1 h).2
    simp only [hF.map_sequence, hG.map_sequence, Node.render, renderAll_eq, List.flatMap_map]
    rw [List.flatMap_congr fun c hc => ih c hc (h c hc)]
  | alternation branches ih =>
    intro h
    have h := (every_alternation.1 h).2
    simp only [hF.map_alternation, hG.map_alternation, Node.render]
    exact renderBranches_congr fun b hb => ih b hb (h b hb)
  | conditional condition yes no hasBar testIsConstruct p iht ihy ihn =>
    intro h
    obtain ⟨hself, ht, hy, hn⟩ := every_conditional.1 h
    exact hconditional _ _ _ _ _ _ hself (fun test he => iht test he (ht test he)) (ihy hy)
      fun n he => ihn n he (hn n he)

end Agreement

end TreeHom

end RegexAnatomy
