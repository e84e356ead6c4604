import RegexAnatomy.Proofs.Portable.Regroup
import RegexAnatomy.Proofs.Portable.Retested

/-! Reading what was read, changed. What the text of a changed tree is read as
depends on what comes behind it, so the statements here leave that open: in front
of whatever stops a reading, the text of the changed branches is read under the
same fronts, and at its start it looks to a look ahead as the old text did. Every
way to go on with a reading keeps this; the groups are a premise here. -/

namespace RegexAnatomy

def rereadAll (branches : List (List Node)) : List (List Node) :=
  branches.map (·.map Node.reread)

theorem rereadAll_cons (branch : List Node) (branches : List (List Node)) :
    rereadAll (branch :: branches) = branch.map Node.reread :: rereadAll branches := rfl

/-- Among the options are `n` or `x`, which change how a text is read. -/
def setsMode (options : Text) : Bool := options.any fun c => c.toLower = 'n' ∨ c.toLower = 'x'

/-- A conditional whose test is such options and nothing else. -/
def Node.testsMode : Node → Bool
  | .conditional (.expression test) .. => test.optionText?.any setsMode
  | _ => false

theorem mode_apply_of_setsMode {options : Text} (h : setsMode options = false) (mode : Mode) :
    mode.apply options = mode := by
  have signed (on : Bool) : mode.applySigned on options = mode := by
    induction options generalizing on with
    | nil => rfl
    | cons c options ih =>
      simp only [setsMode, List.any_cons, Bool.or_eq_false_iff, decide_eq_false_iff_not,
        not_or] at h
      obtain ⟨⟨hn, hx⟩, hoptions⟩ := h
      simp only [Mode.applySigned, if_neg hn, if_neg hx, ih hoptions, ite_self]
  exact signed true

theorem testsMode_of_testsOptions {node : Node} (h : node.testsOptions = false) :
    node.testsMode = false := by
  cases node with
  | conditional condition =>
    cases condition with
    | group => rfl
    | expression test =>
      have hnone : test.optionText? = none :=
        optionText?_of_isAtom ((isAtom_markTest _ _ true).trans h)
      rw [Node.testsMode, hnone]
      rfl
  | _ => rfl

theorem testsMode_eq_false (n : Node) (h : n.isConditional = false) : n.testsMode = false := by
  cases n <;> first | rfl | cases h

def TestsPlainly (branches : List (List Node)) : Prop :=
  ∀ branch ∈ branches, ∀ n ∈ branch, n.Every (·.testsMode = false)

/-- A group in a text, without the quantifier behind it. -/
structure GroupAt (g : GroupTable) (f : Front) (t : Text) (lead : Lead) (opening : Opening)
    (level : Level) (inside : Front) (a : Text) (node : Node) : Prop where
  starts : StartsToken f.mode.freeSpacing t
  read : readLead f.context t = .ok (some lead)
  opens : lead.token.opening? = some opening
  body : Reads g (f.note lead.token) lead.rest level.branches inside (')' :: a)
  node : opening.node g 0 level = .ok node

/-- What was read is read changed from the text of the changed branches, which looks alike. -/
def Rereads (g : GroupTable) (f : Front) (t : Text) (branches : List (List Node)) (f' : Front)
    (t' : Text) : Prop :=
  ∀ s, IsStop s → (t' = [] ↔ s = []) →
    Reads g f (branchesText (rereadAll branches) ++ s) (rereadAll branches) f' s ∧
      Alike f.mode.freeSpacing t (branchesText (rereadAll branches) ++ s)

def BodyRereads (g : GroupTable) (f : Front) (lead : Lead) (opening : Opening) (inside : Front)
    (node : Node) : Prop :=
  ∀ s, ∃ level inside', Reads g (f.note lead.token) (branchesText level.branches ++ ')' :: s)
      level.branches inside' (')' :: s) ∧ inside'.leave f = inside.leave f ∧
    opening.node g 0 level = .ok node.reread ∧
    node.reread.render = lead.token.text ++ branchesText level.branches ++ [')'] ∧
    lead.FitsBefore f.mode.freeSpacing (branchesText level.branches ++ ')' :: s)

/-- The same of a group, with any quantifier and with anything that can be read behind it. -/
def GroupRereads (g : GroupTable) (f : Front) (t : Text) (inside : Front) (node : Node) : Prop :=
  ∀ {repetition : Option Repetition} {a b : Text},
    splitRepetition f.mode.freeSpacing a = (repetition, b) →
    (∀ r ∈ repetition, r.IsCanonical) →
    ∀ {s : Text} {rest : List Node} {branches : List (List Node)} {f' : Front} {t' : Text},
      Reads g (inside.leave f) s (rest :: branches) f' t' →
      let nodes := quantify node.reread (Token.close.block repetition).suffix
      Reads g f (renderAll nodes ++ s) ((nodes ++ rest) :: branches) f' t' ∧
        Alike f.mode.freeSpacing t (renderAll nodes ++ s)

section Groups

variable {g : GroupTable} {f inside : Front} {t a : Text} {lead : Lead} {opening : Opening}
  {level : Level} {node : Node}

theorem GroupAt.rereads (h : GroupAt g f t lead opening level inside a node)
    (hb : BodyRereads g f lead opening inside node) : GroupRereads g f t inside node := by
  intro repetition a b hs hc s rest branches f' t' hrest nodes
  obtain ⟨level', inside', hbody, hleave, hn, htext, hfits⟩ :=
    hb ((repetition.map Repetition.text).getD [] ++ s)
  obtain ⟨hl, halike⟩ := readLead_again h.read h.starts.comment hfits
  have hnodes : renderAll nodes ++ s = lead.token.text ++ (branchesText level'.branches ++
      ')' :: ((repetition.map Repetition.text).getD [] ++ s)) := by
    rw [renderAll_quantify_block hc, htext]
    simp
  have hquantifier : quantifierFollows f.mode.freeSpacing s = false := hrest.no_quantifier.1
  rw [← hleave] at hrest
  rw [hnodes]
  exact ⟨.group (halike.startsToken h.starts) hl h.opens hbody hn
    (splitRepetition_again hs hquantifier) hc hrest, halike⟩

/-- A group other than a conditional changes with its inside. -/
theorem GroupAt.bodyRereads (h : GroupAt g f t lead opening level inside a node)
    (hne : opening ≠ .conditional)
    (hr : Rereads g (f.note lead.token) lead.rest level.branches inside (')' :: a)) :
    BodyRereads g f lead opening inside node := by
  intro s
  obtain ⟨hbody, -⟩ := hr (')' :: s) (by simp [IsStop]) (by simp)
  let level' : Level := ⟨rereadAll level.ended, level.current.map Node.reread⟩
  have hlevel : level'.branches = rereadAll level.branches := by
    simp [level', Level.branches, rereadAll]
  have hbodyNode : (bodyNode level.branches).reread = bodyNode level'.branches := by
    rw [hlevel]
    exact treeHom_reread.map_bodyNode _
  rw [← hlevel] at hbody
  have hn : opening.node g 0 level' = .ok node.reread := by
    have hnode := h.node
    cases opening with
    | bracket => cases hnode; rw [treeHom_reread.map_wrapped, hbodyNode]; rfl
    | group => cases hnode; rw [treeHom_reread.map_wrapped, hbodyNode]; rfl
    | conditional => exact absurd rfl hne
  refine ⟨level', inside, hbody, rfl, hn, ?_, fitsBefore_of_reads h.opens hne hbody _⟩
  exact @Opening.render_node g (lead.token.block none) _ _ _ _ h.opens hn fun hc => absurd hc hne

end Groups

def RereadsBelow (g : GroupTable) (n : Nat) : Prop :=
  ∀ {f : Front} {t : Text} {branches : List (List Node)} {f' : Front} {t' : Text}, t.length < n →
    Reads g f t branches f' t' → TestsPlainly branches → Rereads g f t branches f' t'

def GroupsRereadBelow (g : GroupTable) (n : Nat) : Prop :=
  ∀ {f : Front} {t : Text} {lead : Lead} {opening : Opening} {level : Level} {inside : Front}
    {a : Text} {node : Node}, t.length < n → GroupAt g f t lead opening level inside a node →
      node.Every (·.testsMode = false) → GroupRereads g f t inside node

section Steps

variable {g : GroupTable} {f f' : Front} {t t' a a' : Text} {branch : List Node}
  {branches : List (List Node)}

theorem IsStop.alike {free : Bool} (h : IsStop a) (h' : IsStop a') (hnil : a = [] ↔ a' = []) :
    Alike free a a' := by
  have hopen {a : Text} (h : IsStop a) : a.head? ≠ some '(' := by
    intro hc
    rcases h '(' hc with hc | hc <;> cases hc
  exact .shut h.shut h'.shut hnil (iff_of_false (hopen h) (hopen h'))

theorem Lead.splitTail_again {free : Bool} {lead : Lead} {repetition : Option Repetition}
    (h : lead.splitTail free = (repetition, a)) (hq : quantifierFollows free a' = false) :
    Lead.splitTail free { lead with rest := (repetition.map Repetition.text).getD [] ++ a' } =
      (repetition, a') := by
  unfold Lead.splitTail at h ⊢
  split at h
  next hr =>
    rw [if_pos hr]
    exact splitRepetition_again h hq
  next hr =>
    cases h
    rw [if_neg hr]
    rfl

theorem Alike.of_splitTail {free : Bool} {lead : Lead} {repetition : Option Repetition}
    (h : lead.splitTail free = (repetition, a)) (ha : Alike free a a') :
    Alike free lead.rest ((repetition.map Repetition.text).getD [] ++ a') := by
  unfold Lead.splitTail at h
  split at h
  · exact Alike.of_splitRepetition h ha
  · cases h
    exact ha

/-- The nodes of a single block do not change. -/
theorem Block.Yields.map_reread {g : GroupTable} {b : Block} {nodes : List Node}
    (h : b.Yields g nodes) (hr : b.Regular) : nodes.map Node.reread = nodes := by
  have hatom (text : Text) (kind : AtomKind) (isReference : Option Bool) :
      (Node.atom text kind isReference).reread = .atom text kind isReference := rfl
  have hnodes : ∀ n ∈ nodes, n.reread = n := by
    refine h.forall_mem hr (fun _ => rfl) (fun _ _ => rfl) fun _ _ _ _ _ => ⟨rfl, ?_⟩
    refine forall_mem_quantify b (fun _ => rfl) rfl (treeHom_reread.map_quantified _ _)
      fun _ items => ?_
    rw [treeHom_reread.map_sequence, List.map_cons, treeHom_reread.map_trivia, hatom]
  rw [List.map_congr_left hnodes, List.map_id']

theorem fitsBefore_of_yields {lead : Lead} {repetition : Option Repetition} {nodes : List Node}
    (hl : readLead f.context t = .ok (some lead))
    (hs : lead.splitTail (f.note lead.token).mode.freeSpacing = (repetition, a))
    (hy : (lead.token.block repetition).Yields g nodes)
    (ha : Alike (f.note lead.token).mode.freeSpacing a a') :
    lead.FitsBefore f.mode.freeSpacing ((repetition.map Repetition.text).getD [] ++ a') := by
  have htoken : (lead.token.block repetition).token = lead.token := rfl
  rcases hy.cases (regular_block hl hs) with ⟨ht, -⟩ | ⟨text, ht, -⟩ | ⟨_, _, _, _, ht, -⟩
  · exact absurd ht (readLead_regular hl).notLayout
  · rw [htoken] at ht
    simp [Lead.FitsBefore, ht]
  · rw [htoken] at ht
    have hmode : (f.note lead.token).mode = f.mode := by
      cases h : lead.token <;> rw [h] at ht <;> first | rfl | cases ht
    rw [hmode] at hs ha
    exact (Lead.fitsBefore_iff ht _).2 (.of_splitTail hs ha)

theorem testsPlainly_cons {branch : List Node} : TestsPlainly (branch :: branches) ↔
    (∀ n ∈ branch, n.Every (·.testsMode = false)) ∧ TestsPlainly branches :=
  List.forall_mem_cons

theorem Lead.rest_length {ctx : Context} {lead : Lead} (h : readLead ctx t = .ok (some lead)) :
    lead.rest.length < t.length := by
  obtain ⟨htext, hne⟩ := readLead_covers h
  have := List.length_pos_iff.2 hne
  rw [← htext, List.length_append]
  omega

theorem length_le_of_splitTail {free : Bool} {lead : Lead} {repetition : Option Repetition}
    (h : lead.splitTail free = (repetition, a)) : a.length ≤ lead.rest.length := by
  rw [← Lead.splitTail_append h, List.length_append]
  omega

theorem length_le_of_splitRepetition {free : Bool} {repetition : Option Repetition}
    (h : splitRepetition free t = (repetition, a)) : a.length ≤ t.length := by
  rw [← splitRepetition_append h, List.length_append]
  omega

theorem Rereads.stop (ht : IsStop t) : Rereads g f t [[]] f t :=
  fun _ hs hnil => ⟨.stop hs, ht.alike hs hnil⟩

theorem Rereads.bar (hne : branches ≠ []) (h : Rereads g f.settle t branches f' t') :
    Rereads g f ('|' :: t) ([] :: branches) f' t' := by
  intro s hs hnil
  obtain ⟨hread, -⟩ := h s hs hnil
  have hne : rereadAll branches ≠ [] := by simpa [rereadAll] using hne
  have htext : branchesText (rereadAll ([] :: branches)) ++ s =
      '|' :: (branchesText (rereadAll branches) ++ s) := by
    rw [rereadAll_cons, List.map_nil, branchesText_bar hne]
    rfl
  rw [htext]
  exact ⟨.bar hread, alike_operator (by decide) _ _⟩

theorem Rereads.trivia {item : Trivia} (hsplit : splitTrivia f.mode.freeSpacing t = some (item, a))
    (h : Rereads g f.settle a (branch :: branches) f' t') :
    Rereads g f t ((item.node :: branch) :: branches) f' t' := by
  intro s hs hnil
  obtain ⟨hread, halike⟩ := h s hs hnil
  have hall : rereadAll ((item.node :: branch) :: branches) =
      ([item.node] ++ branch.map Node.reread) :: rereadAll branches := rfl
  have htext : branchesText (rereadAll ((item.node :: branch) :: branches)) ++ s =
      item.text ++ (branchesText (rereadAll (branch :: branches)) ++ s) := by
    rw [hall, branchesText_append, List.append_assoc, rereadAll_cons]
    simp [Trivia.node]
  have hsplit' := splitTrivia_again hsplit halike
  rw [htext]
  exact ⟨.trivia hsplit' hread, .trivia hsplit hsplit' halike⟩

theorem Rereads.leaf {lead : Lead} {repetition : Option Repetition} {nodes : List Node}
    (ht : StartsToken f.mode.freeSpacing t) (hl : readLead f.context t = .ok (some lead))
    (hsplit : lead.splitTail (f.note lead.token).mode.freeSpacing = (repetition, a))
    (hc : ∀ r ∈ repetition, r.IsCanonical) (hy : (lead.token.block repetition).Yields g nodes)
    (h : Rereads g (f.note lead.token) a (branch :: branches) f' t') :
    Rereads g f t ((nodes ++ branch) :: branches) f' t' := by
  intro s hs hnil
  obtain ⟨hread, halike⟩ := h s hs hnil
  have hregular := regular_block hl hsplit
  have hall : rereadAll ((nodes ++ branch) :: branches) =
      (nodes ++ branch.map Node.reread) :: rereadAll branches := by
    rw [rereadAll_cons, List.map_append, hy.map_reread hregular]
  have htext : branchesText (rereadAll ((nodes ++ branch) :: branches)) ++ s =
      lead.token.text ++ ((repetition.map Repetition.text).getD [] ++
        (branchesText (rereadAll (branch :: branches)) ++ s)) := by
    rw [hall, branchesText_append, hy.render_block hregular hc, rereadAll_cons]
    simp
  obtain ⟨hl', halike'⟩ := readLead_again hl ht.comment (fitsBefore_of_yields hl hsplit hy halike)
  rw [htext, hall]
  exact ⟨.leaf (halike'.startsToken ht) hl' (Lead.splitTail_again hsplit hread.no_quantifier.1)
    hc hy hread, halike'⟩

theorem Rereads.group {inside : Front} {b : Text} {node : Node} {repetition : Option Repetition}
    (hsplit : splitRepetition f.mode.freeSpacing a = (repetition, b))
    (hc : ∀ r ∈ repetition, r.IsCanonical) (hnode : GroupRereads g f t inside node)
    (h : Rereads g (inside.leave f) b (branch :: branches) f' t') : Rereads g f t
      ((quantify node (Token.close.block repetition).suffix ++ branch) :: branches) f' t' := by
  intro s hs hnil
  obtain ⟨hread, -⟩ := h s hs hnil
  obtain ⟨items, hb⟩ := (Token.close.block repetition).suffix_before
  have hall : rereadAll
      ((quantify node (Token.close.block repetition).suffix ++ branch) :: branches) =
      (quantify node.reread (Token.close.block repetition).suffix ++
        branch.map Node.reread) :: rereadAll branches := by
    rw [rereadAll_cons, List.map_append, treeHom_reread.map_quantify node hb]
  rw [hall, branchesText_append, List.append_assoc]
  exact hnode hsplit hc hread

/-- A reading is read changed if what is read behind its first step is, and the group if it starts
with one. -/
theorem Reads.rereads {n : Nat} (hbelow : RereadsBelow g n) (hgroup : GroupsRereadBelow g (n + 1))
    (hlen : t.length < n + 1) (h : Reads g f t branches f' t') (hp : TestsPlainly branches) :
    Rereads g f t branches f' t' := by
  cases h with
  | stop ht => exact .stop ht
  | bar h =>
    rw [List.length_cons] at hlen
    exact .bar h.ne_nil (hbelow (by omega) h (testsPlainly_cons.1 hp).2)
  | trivia hsplit h =>
    obtain ⟨hbranch, hbranches⟩ := testsPlainly_cons.1 hp
    have hshorter := splitTrivia_length hsplit
    exact .trivia hsplit (hbelow (by omega) h
      (testsPlainly_cons.2 ⟨(List.forall_mem_cons.1 hbranch).2, hbranches⟩))
  | leaf ht hl hsplit hc hy h =>
    obtain ⟨hbranch, hbranches⟩ := testsPlainly_cons.1 hp
    have hrest := Lead.rest_length hl
    have htail := length_le_of_splitTail hsplit
    exact .leaf ht hl hsplit hc hy (hbelow (by omega) h
      (testsPlainly_cons.2 ⟨(List.forall_mem_append.1 hbranch).2, hbranches⟩))
  | @group _ _ _ _ _ _ _ _ _ _ _ _ repetition _ _ ht hl ho hi hn hsplit hc h =>
    obtain ⟨hbranch, hbranches⟩ := testsPlainly_cons.1 hp
    obtain ⟨hnodes, hbranch⟩ := List.forall_mem_append.1 hbranch
    have hnode := (every_quantify testsMode_eq_false (Token.close.block repetition)).1 hnodes
    have hrest := Lead.rest_length hl
    have hinner := hi.length_le
    have htail := length_le_of_splitRepetition hsplit
    rw [List.length_cons] at hinner
    have hat := GroupAt.mk ht hl ho hi (Opening.node_of_start hn 0)
    exact .group hsplit hc (hgroup hlen hat hnode)
      (hbelow (by omega) h (testsPlainly_cons.2 ⟨hbranch, hbranches⟩))

end Steps

end RegexAnatomy
