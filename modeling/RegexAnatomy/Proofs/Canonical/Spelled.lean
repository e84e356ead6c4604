import RegexAnatomy.Proofs.Portable.Styles

/-! Trees up to how their literal text is cut. A run of literal text can be one leaf
or several, depending on which quantifiers stood in it when it was read, and blanks
that stood on both sides of something gone come together. A tree is spelled when
every such leaf is a single character, and what the spelled trees have in common
the trees have too: the changes they need, what they are written as, the references
in them. -/

namespace RegexAnatomy

/-- A leaf of literal text or of blanks, character by character; any other as it is. -/
def spelledAtom (text : Text) (kind : AtomKind) (isReference : Option Bool) : List Node :=
  if (kind = .literal ∨ kind = .blanks) ∧ text ≠ [] then
    text.map fun c => .atom [c] kind isReference
  else [.atom text kind isReference]

def Node.isText (node : Node) : Bool := node.isAtom .literal || node.isAtom .blanks

mutual

def Node.spelled : Node → List Node
  | .atom text kind isReference => spelledAtom text kind isReference
  | .sequence children quantifier wrapping isTest =>
    [.sequence (spelledAll children) quantifier wrapping isTest]
  | .alternation branches => [.alternation (spelledEach branches)]
  | .conditional condition yes no hasBar testIsConstruct p =>
    [.conditional condition.spelled (branchNode yes.spelled) (spelledNo no) hasBar
      testIsConstruct p]

def Condition.spelled : Condition → Condition
  | .group id => .group id
  | .expression test => .expression (branchNode test.spelled)

def spelledNo : Option Node → Option Node
  | none => none
  | some no => some (branchNode no.spelled)

def spelledAll : List Node → List Node
  | [] => []
  | node :: nodes => node.spelled ++ spelledAll nodes

def spelledEach : List Node → List Node
  | [] => []
  | branch :: branches => branchNode branch.spelled :: spelledEach branches

end

mutual

def Node.references : Node → List (Text × Option Bool)
  | .atom text kind isReference => if kind = .backreference then [(text, isReference)] else []
  | .sequence children .. => referencesAll children
  | .alternation branches => referencesAll branches
  | .conditional condition yes no .. => condition.references ++ yes.references ++ referencesNo no

def Condition.references : Condition → List (Text × Option Bool)
  | .group _ => []
  | .expression test => test.references

def referencesNo : Option Node → List (Text × Option Bool)
  | none => []
  | some no => no.references

def referencesAll : List Node → List (Text × Option Bool)
  | [] => []
  | node :: nodes => node.references ++ referencesAll nodes

end

section Lists

theorem spelledAll_eq (nodes : List Node) : spelledAll nodes = nodes.flatMap Node.spelled := by
  induction nodes with
  | nil => rfl
  | cons node nodes ih => simp [spelledAll, ih]

@[simp] theorem spelledAll_append (s t : List Node) :
    spelledAll (s ++ t) = spelledAll s ++ spelledAll t := by
  simp [spelledAll_eq]

theorem spelledEach_eq (branches : List Node) :
    spelledEach branches = branches.map fun b => branchNode b.spelled := by
  induction branches with
  | nil => rfl
  | cons branch branches ih => simp [spelledEach, ih]

theorem referencesAll_eq (nodes : List Node) :
    referencesAll nodes = nodes.flatMap Node.references := by
  induction nodes with
  | nil => rfl
  | cons node nodes ih => simp [referencesAll, ih]

theorem spelledAtom_ne_nil (text : Text) (kind : AtomKind) (isReference : Option Bool) :
    spelledAtom text kind isReference ≠ [] := by
  unfold spelledAtom
  split
  next h => simpa using h.2
  next => simp

theorem Node.spelled_ne_nil (node : Node) : node.spelled ≠ [] := by
  cases node with
  | atom text kind isReference => exact spelledAtom_ne_nil text kind isReference
  | _ => simp [Node.spelled]

theorem spelledAll_eq_nil {nodes : List Node} : spelledAll nodes = [] ↔ nodes = [] := by
  cases nodes with
  | nil => simp [spelledAll]
  | cons node nodes => simp [spelledAll, node.spelled_ne_nil]

/-- What is added up over the nodes of a branch is added up over the branch. -/
theorem branchNode_fold {α : Type} (f : Node → List α) {nodes : List Node} (hne : nodes ≠ [])
    (h : f (.concat nodes) = nodes.flatMap f) : f (branchNode nodes) = nodes.flatMap f := by
  match nodes with
  | [] => exact absurd rfl hne
  | [node] => simp [branchNode]
  | node :: next :: nodes => exact h

end Lists

section References

theorem references_branchNode {nodes : List Node} (hne : nodes ≠ []) :
    (branchNode nodes).references = nodes.flatMap Node.references :=
  branchNode_fold Node.references hne (referencesAll_eq nodes)

/-- Spelling a tree changes no reference. -/
theorem references_spelled (tree : Node) :
    tree.spelled.flatMap Node.references = tree.references := by
  induction tree using Node.induction with
  | atom text kind isReference =>
    unfold Node.spelled spelledAtom
    split
    next h => rcases h.1 with rfl | rfl <;> simp [Node.references, List.flatMap_map]
    next => simp
  | sequence children quantifier wrapping isTest ih =>
    simp only [Node.spelled, List.flatMap_singleton, Node.references, referencesAll_eq,
      spelledAll_eq, List.flatMap_assoc]
    exact List.flatMap_congr ih
  | alternation branches ih =>
    simp only [Node.spelled, List.flatMap_singleton, Node.references, referencesAll_eq,
      spelledEach_eq, List.flatMap_map]
    exact List.flatMap_congr fun b hb =>
      (references_branchNode b.spelled_ne_nil).trans (ih b hb)
  | conditional condition yes no hasBar testIsConstruct p iht ihy ihn =>
    have hc : condition.spelled.references = condition.references := by
      cases condition with
      | group => rfl
      | expression test =>
        exact (references_branchNode test.spelled_ne_nil).trans (iht test rfl)
    have hn : referencesNo (spelledNo no) = referencesNo no := by
      cases no with
      | none => rfl
      | some n => exact (references_branchNode n.spelled_ne_nil).trans (ihn n rfl)
    simp only [Node.spelled, List.flatMap_singleton, Node.references, hc, hn,
      references_branchNode yes.spelled_ne_nil, ihy]

end References

section Heads

variable {node : Node}

theorem isAtom_spelled (kind : AtomKind) (node : Node) :
    ∀ n ∈ node.spelled, n.isAtom kind = node.isAtom kind := by
  cases node with
  | atom =>
    unfold Node.spelled spelledAtom
    split
    · intro n hn
      obtain ⟨c, -, rfl⟩ := List.mem_map.1 hn
      rfl
    · simp
  | _ => simp [Node.spelled, Node.isAtom]

theorem isText_spelled (node : Node) : ∀ n ∈ node.spelled, n.isText = node.isText := by
  intro n hn
  rw [Node.isText, isAtom_spelled _ node n hn, isAtom_spelled _ node n hn, Node.isText]

theorem exists_spelled_eq (h : node.isText = false) : ∃ n, node.spelled = [n] := by
  cases node with
  | atom text kind isReference =>
    refine ⟨_, if_neg fun hk => ?_⟩
    rcases hk.1 with rfl | rfl <;> simp [Node.isText, Node.isAtom] at h
  | _ => exact ⟨_, rfl⟩

theorem isOptionGroup_spelled (node : Node) :
    ∀ n ∈ node.spelled, n.isOptionGroup = node.isOptionGroup := by
  cases node with
  | atom =>
    unfold Node.spelled spelledAtom
    split
    · intro n hn
      obtain ⟨c, -, rfl⟩ := List.mem_map.1 hn
      rfl
    · simp
  | sequence _ _ wrapping => cases wrapping <;> simp [Node.spelled, Node.isOptionGroup]
  | _ => simp [Node.spelled, Node.isOptionGroup]

theorem setsOptions_spelled (node : Node) :
    ∀ n ∈ node.spelled, n.setsOptions = node.setsOptions := by
  intro n hn
  rw [Node.setsOptions, isAtom_spelled _ node n hn, isOptionGroup_spelled node n hn,
    Node.setsOptions]

theorem any_setsOptions_spelled (node : Node) :
    node.spelled.any Node.setsOptions = node.setsOptions := by
  obtain ⟨n, ns, hn⟩ := List.exists_cons_of_ne_nil node.spelled_ne_nil
  have h := setsOptions_spelled node
  cases hset : node.setsOptions with
  | true => exact List.any_eq_true.2 ⟨n, by simp [hn], (h n (by simp [hn])).trans hset⟩
  | false => exact List.any_eq_false.2 fun m hm => by simp [h m hm, hset]

theorem setsOptions_of_isText (h : node.isText) : node.setsOptions = false := by
  cases node with
  | atom text kind => cases kind <;> first | rfl | cases h
  | _ => cases h

theorem optionText?_of_isText (h : node.isText) : node.optionText? = none := by
  cases node with
  | atom text kind => cases kind <;> first | rfl | cases h
  | _ => rfl

theorem optionText?_spelled (node : Node) :
    ∀ n ∈ node.spelled, n.optionText? = node.optionText? := by
  cases node with
  | atom =>
    unfold Node.spelled spelledAtom
    split
    next h =>
      intro n hn
      obtain ⟨c, -, rfl⟩ := List.mem_map.1 hn
      rcases h.1 with rfl | rfl <;> rfl
    · simp
  | _ => simp [Node.spelled, Node.optionText?]

/-- A spelled node as a branch is what the node is, in whatever no text is and no bare sequence. -/
theorem apply_branchNode_spelled {α : Type} {f : Node → α} {a : α}
    (h : ∀ n ∈ node.spelled, f n = f node) (hconcat : ∀ nodes, f (.concat nodes) = a)
    (htext : node.isText → f node = a) :
    f (branchNode node.spelled) = f node := by
  match hs : node.spelled with
  | [] => exact absurd hs node.spelled_ne_nil
  | [n] => exact h n (by simp [hs])
  | n :: next :: nodes =>
    have hnode : node.isText := by
      by_contra hne
      obtain ⟨m, hm⟩ := exists_spelled_eq (eq_false_of_ne_true hne)
      simp [hs] at hm
    exact (hconcat _).trans (htext hnode).symm

theorem setsOptions_branchNode_spelled (node : Node) :
    (branchNode node.spelled).setsOptions = node.setsOptions :=
  apply_branchNode_spelled (setsOptions_spelled node) (fun _ => rfl) setsOptions_of_isText

theorem optionText?_branchNode_spelled (node : Node) :
    (branchNode node.spelled).optionText? = node.optionText? :=
  apply_branchNode_spelled (optionText?_spelled node) (fun _ => rfl) optionText?_of_isText

end Heads

section Plans

theorem filterMap_optionText?_spelled (node : Node) :
    node.spelled.filterMap Node.optionText? = node.optionText?.toList := by
  cases node with
  | atom text kind isReference =>
    unfold Node.spelled spelledAtom
    split
    next h => rcases h.1 with rfl | rfl <;> simp [Node.optionText?, Function.comp_def]
    next =>
      cases h : (Node.atom text kind isReference).optionText? <;> simp [h]
  | _ => simp [Node.spelled, Node.optionText?]

/-- The units of a spelled branch are the units of the branch, spelled. -/
theorem units_branchNode_spelled (branch : Node) :
    (branchNode branch.spelled).units = branch.units.flatMap Node.spelled := by
  have concat {nodes : List Node} (hne : nodes ≠ []) (h : ∀ n ∈ nodes, n.units = [n]) :
      (branchNode nodes).units = nodes := by
    match nodes with
    | [] => exact absurd rfl hne
    | [node] => exact h node (by simp)
    | node :: next :: nodes => rfl
  cases branch with
  | atom text kind isReference =>
    have hunits : (Node.atom text kind isReference).units = [.atom text kind isReference] := rfl
    rw [hunits, List.flatMap_singleton]
    refine concat (Node.spelled_ne_nil _) fun n hn => ?_
    unfold Node.spelled spelledAtom at hn
    split at hn
    · obtain ⟨c, -, rfl⟩ := List.mem_map.1 hn
      rfl
    · rw [List.mem_singleton.1 hn]
      rfl
  | sequence children quantifier wrapping isTest =>
    cases wrapping <;> simp [Node.spelled, branchNode, Node.units, spelledAll_eq]
  | _ => simp [Node.spelled, branchNode, Node.units]

theorem branchSetsOptions_spelled (branch : Node) :
    (branchNode branch.spelled).branchSetsOptions = branch.branchSetsOptions := by
  simp only [Node.branchSetsOptions, units_branchNode_spelled, List.any_flatMap,
    any_setsOptions_spelled]

theorem branchOptions_spelled (branch : Node) :
    (branchNode branch.spelled).branchOptions = branch.branchOptions := by
  simp only [Node.branchOptions, units_branchNode_spelled]
  induction branch.units with
  | nil => rfl
  | cons n ns ih =>
    rw [List.flatMap_cons, List.filterMap_append, ih, filterMap_optionText?_spelled,
      List.filterMap_cons]
    cases n.optionText? <;> rfl

theorem isEmptyBranch_spelled (branch : Node) :
    (branchNode branch.spelled).isEmptyBranch = branch.isEmptyBranch := by
  cases branch with
  | atom text kind isReference =>
    unfold Node.spelled spelledAtom
    split
    next h =>
      match text, h.2 with
      | [c], _ => rfl
      | c :: d :: text, _ => simp [branchNode, Node.concat, Node.isEmptyBranch]
    next => rfl
  | sequence children quantifier wrapping isTest =>
    have hnil : (spelledAll children).isEmpty = children.isEmpty :=
      Bool.eq_iff_iff.2 (by simp [spelledAll_eq_nil])
    cases wrapping <;> simp [Node.spelled, branchNode, Node.isEmptyBranch, hnil]
  | _ => simp [Node.spelled, branchNode, Node.isEmptyBranch]

theorem setsOptions_condition_spelled (condition : Condition) :
    condition.spelled.setsOptions = condition.setsOptions := by
  cases condition with
  | group => rfl
  | expression test => exact setsOptions_branchNode_spelled test

/-- A conditional is changed in the same way however its text is cut. -/
theorem planConditional_spelled (condition : Condition) (yes : Node) (no : Option Node) :
    planConditional condition.spelled (branchNode yes.spelled) (spelledNo no) =
      planConditional condition yes no := by
  cases no <;>
    simp [planConditional, planNo, spelledNo, setsOptions_condition_spelled,
      branchSetsOptions_spelled, branchOptions_spelled, isEmptyBranch_spelled]

end Plans

section Portable

variable (style : Style)

theorem portable_branchNode_snd {nodes : List Node} (hne : nodes ≠ []) :
    ((branchNode nodes).portable style).2 = nodes.any fun n => (n.portable style).2 := by
  match nodes with
  | [] => exact absurd rfl hne
  | [node] => simp [branchNode]
  | node :: next :: nodes => simp [branchNode, Node.concat]

/-- Whether a tree has to change does not depend on how its text is cut. -/
theorem portable_spelled_snd (tree : Node) :
    (tree.spelled.any fun n => (n.portable style).2) = (tree.portable style).2 := by
  induction tree using Node.induction with
  | atom text kind isReference =>
    unfold Node.spelled spelledAtom
    split <;> simp
  | sequence children quantifier wrapping isTest ih =>
    simp only [Node.spelled, List.any_cons, List.any_nil, Bool.or_false, portable_sequence,
      spelledAll_eq, List.any_flatMap]
    exact any_congr_of_mem ih
  | alternation branches ih =>
    simp only [Node.spelled, List.any_cons, List.any_nil, Bool.or_false, portable_alternation,
      spelledEach_eq, List.any_map]
    exact any_congr_of_mem fun b hb =>
      (portable_branchNode_snd style b.spelled_ne_nil).trans (ih b hb)
  | conditional condition yes no hasBar testIsConstruct p iht ihy ihn =>
    have hc : (condition.spelled.portable style).2 = (condition.portable style).2 := by
      cases condition with
      | group => rfl
      | expression test =>
        exact (portable_branchNode_snd style test.spelled_ne_nil).trans (iht test rfl)
    have hn : ((spelledNo no).any fun n => (n.portable style).2) =
        no.any fun n => (n.portable style).2 := by
      cases no with
      | none => rfl
      | some n => exact (portable_branchNode_snd style n.spelled_ne_nil).trans (ihn n rfl)
    simp only [Node.spelled, List.any_cons, List.any_nil, Bool.or_false, portable_conditional,
      planConditional_spelled, hc, hn, portable_branchNode_snd style yes.spelled_ne_nil, ihy]

def Node.portableText (node : Node) : Text := (node.portable .annotate).1.render

theorem portableText_branchNode {nodes : List Node} (hne : nodes ≠ []) :
    (branchNode nodes).portableText = nodes.flatMap Node.portableText := by
  refine branchNode_fold Node.portableText hne ?_
  simp only [Node.portableText, Node.concat, portable_sequence, Node.render, Wrapping.around,
    renderAll_eq, List.flatMap_map, List.append_nil]
  rfl

/-- The portable text does not depend on how the text of a tree is cut. -/
theorem portableText_spelled (tree : Node) :
    tree.spelled.flatMap Node.portableText = tree.portableText := by
  induction tree using Node.induction with
  | atom text kind isReference =>
    unfold Node.spelled spelledAtom
    split
    · simp [Node.portableText, Node.render, List.flatMap_map]
    · simp
  | sequence children quantifier wrapping isTest ih =>
    have hparts : (spelledAll children).flatMap (fun n => (n.portable .annotate).1.render) =
        children.flatMap fun n => (n.portable .annotate).1.render := by
      rw [spelledAll_eq, List.flatMap_assoc]
      exact List.flatMap_congr ih
    simp only [Node.spelled, List.flatMap_singleton, Node.portableText, portable_sequence,
      Node.render, renderAll_eq, List.flatMap_map, hparts]
  | alternation branches ih =>
    simp only [Node.spelled, List.flatMap_singleton, Node.portableText, portable_alternation,
      Node.render, spelledEach_eq, List.map_map]
    exact renderBranches_congr fun b hb =>
      (portableText_branchNode b.spelled_ne_nil).trans (ih b hb)
  | conditional condition yes no hasBar testIsConstruct p iht ihy ihn =>
    have hc (wrap : Bool) : (condition.spelled.portable .annotate).1.render wrap =
        (condition.portable .annotate).1.render wrap := by
      cases condition with
      | group => rfl
      | expression test =>
        exact congrArg (groupedWhen wrap [])
          ((portableText_branchNode test.spelled_ne_nil).trans (iht test rfl))
    have hy : ((branchNode yes.spelled).portable .annotate).1.render =
        (yes.portable .annotate).1.render :=
      (portableText_branchNode yes.spelled_ne_nil).trans ihy
    have hn (n : Node) (hno : n ∈ no) : ((branchNode n.spelled).portable .annotate).1.render =
        (n.portable .annotate).1.render :=
      (portableText_branchNode n.spelled_ne_nil).trans (ihn n hno)
    simp only [Node.spelled, List.flatMap_singleton, Node.portableText, portable_conditional,
      planConditional_spelled, Plan.apply, Node.render_conditional, hc, hy]
    cases no with
    | none => rfl
    | some n => simp [spelledNo, hn n rfl]

end Portable

section Every

variable {P : Node → Prop}

/-- A property of conditionals that spelling does not touch holds all over a tree or not at all
however its text is cut. -/
theorem every_spelled (hP : ∀ n : Node, n.isConditional = false → P n)
    (hcond : ∀ condition yes no hasBar testIsConstruct p,
      P (.conditional (Condition.spelled condition) (branchNode (Node.spelled yes))
        (spelledNo no) hasBar testIsConstruct p) ↔
        P (.conditional condition yes no hasBar testIsConstruct p)) (tree : Node) :
    (∀ n ∈ tree.spelled, n.Every P) ↔ tree.Every P := by
  induction tree using Node.induction with
  | atom text kind isReference =>
    unfold Node.spelled spelledAtom
    split
    · refine iff_of_true (fun n hn => ?_) (every_atom.2 (hP _ rfl))
      obtain ⟨c, -, rfl⟩ := List.mem_map.1 hn
      exact every_atom.2 (hP _ rfl)
    · simp
  | sequence children quantifier wrapping isTest ih =>
    simp only [Node.spelled, List.mem_singleton, forall_eq, every_parts hP, spelledAll_eq,
      List.mem_flatMap, forall_exists_index, and_imp]
    exact ⟨fun h c hc => (ih c hc).1 fun n => h n c hc, fun h n c hc => (ih c hc).2 (h c hc) n⟩
  | alternation branches ih =>
    simp only [Node.spelled, List.mem_singleton, forall_eq, every_alternation, spelledEach_eq,
      List.forall_mem_map, every_branchNode hP]
    exact and_congr (iff_of_true (hP _ rfl) (hP _ rfl)) (forall₂_congr ih)
  | conditional condition yes no hasBar testIsConstruct p iht ihy ihn =>
    simp only [Node.spelled, List.mem_singleton, forall_eq, every_conditional,
      every_branchNode hP]
    refine and_congr (hcond condition yes no hasBar testIsConstruct p)
      (and_congr ?_ (and_congr ihy ?_))
    · cases condition with
      | group => simp [Condition.spelled]
      | expression test => simpa [Condition.spelled, every_branchNode hP] using iht test rfl
    · cases no with
      | none => simp [spelledNo]
      | some n => simpa [spelledNo, every_branchNode hP] using ihn n rfl

end Every

end RegexAnatomy
