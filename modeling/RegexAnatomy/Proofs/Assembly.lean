import RegexAnatomy.Pattern
import RegexAnatomy.Proofs.Block.Regular

/-! The blocks of a pattern with their parentheses matched. The tree is built with
a stack of open groups, block by block; `Assembles` says what is built without the
stack, a whole group at a time, so that a fact about the tree is proved by
induction over groups within groups. One relation serves for branches and for
lists of them: the first branch of the list is the one that is being read. -/

namespace RegexAnatomy

def Token.atom? : Token → Option Node
  | .anchor text => some (.plain text .anchor)
  | .charClass text => some (.plain text .charClass)
  | .literal text => some (.literal text)
  | _ => none

def Token.opening? : Token → Option Opening
  | .openParen capture => some (.bracket capture)
  | .openGroup opener => some (.group opener)
  | .openConditional => some .conditional
  | _ => none

theorem Token.standsAlone_of_opening {token : Token} {opening : Opening}
    (h : token.opening? = some opening) : token.StandsAlone := by
  cases token <;> trivial

theorem Token.ne_close_of_opening {token : Token} {opening : Opening}
    (h : token.opening? = some opening) : token ≠ .close := by
  rintro rfl
  cases h

def Block.loose (b : Block) : List Node := b.suffix.after ++ b.trivia.map Trivia.node

/-- The nodes of a block that neither opens nor closes a group nor ends a branch. -/
inductive Block.Yields (g : GroupTable) (b : Block) : List Node → Prop
  | layout (h : b.token = .layout) : Yields g b []
  | options {text : Text} (h : b.token = .options text) : Yields g b [.plain text .inlineOptions]
  | atom {node : Node} (h : b.token.atom? = some node) : Yields g b (quantify node b.suffix)
  | reference {text name : Text} (h : b.token = .namedReference text name)
      (hk : g.knows name = true) : Yields g b (quantify (.reference text true) b.suffix)
  | escape {text : Text} {nodes : List Node} (h : b.token = .numericEscape text)
      (hn : numericEscapeNodes g text b.span b.suffix = .ok nodes) : Yields g b nodes

inductive Assembles (g : GroupTable) : List Block → List (List Node) → Prop
  | nil : Assembles g [] [[]]
  | leaf {b : Block} {nodes : List Node} {bs : List Block} {branch : List Node}
      {branches : List (List Node)} (hb : b.Yields g nodes)
      (h : Assembles g bs (branch :: branches)) :
      Assembles g (b :: bs) ((nodes ++ b.loose ++ branch) :: branches)
  | bar {b : Block} {bs : List Block} {branches : List (List Node)} (hb : b.token = .bar)
      (h : Assembles g bs branches) : Assembles g (b :: bs) ([] :: branches)
  | group {opener closer : Block} {opening : Opening} {inner bs : List Block} {level : Level}
      {node : Node} {branch : List Node} {branches : List (List Node)}
      (ho : opener.token.opening? = some opening) (hi : Assembles g inner level.branches)
      (hc : closer.token = .close) (hn : opening.node g opener.span.start level = .ok node)
      (h : Assembles g bs (branch :: branches)) :
      Assembles g (opener :: inner ++ closer :: bs)
        ((quantify node closer.suffix ++ closer.loose ++ branch) :: branches)

theorem Assembles.ne_nil {g : GroupTable} {bs : List Block} {branches : List (List Node)}
    (h : Assembles g bs branches) : branches ≠ [] := by
  cases h <;> simp

section Push

variable {g : GroupTable} {b : Block}

theorem Block.Regular.suffix_eq (hb : b.Regular) (ha : b.token.StandsAlone) : b.suffix = {} := by
  simp [Block.suffix, (hb.alone ha).1]

theorem Block.Regular.loose_eq (hb : b.Regular) (ha : b.token.StandsAlone) : b.loose = [] := by
  simp [Block.loose, hb.suffix_eq ha, (hb.alone ha).2]

@[simp] theorem Assembly.append_nil (a : Assembly) : a.append [] = a := by
  simp [Assembly.append]

@[simp] theorem Assembly.append_append (a : Assembly) (s t : List Node) :
    (a.append s).append t = a.append (s ++ t) := by
  simp [Assembly.append]

theorem push_eq_ok {a a' : Assembly} :
    a.push g b = .ok a' ↔ ∃ a₁, a.take g b = .ok a₁ ∧ a' = a₁.append b.loose := by
  simp only [Assembly.push, bind_eq_ok, Block.loose, Except.ok.injEq]
  exact exists_congr fun a₁ => and_congr_right fun _ => eq_comm

theorem push_of_yields {nodes : List Node} (h : b.Yields g nodes) (a : Assembly) :
    a.push g b = .ok (a.append (nodes ++ b.loose)) := by
  refine push_eq_ok.2 ⟨a.append nodes, ?_, by simp⟩
  unfold Assembly.take
  cases h with
  | layout h => simp [h]
  | options h => simp [h]
  | atom h => cases hb : b.token <;> simp_all [Token.atom?]
  | reference h hk => simp [h, hk]
  | escape h hn => simp [h, hn, bind, Except.bind]

theorem push_of_opening {opening : Opening} (hb : b.Regular)
    (h : b.token.opening? = some opening) (a : Assembly) :
    a.push g b = .ok (a.enter opening b.span.start) := by
  have ha : b.token.StandsAlone := Token.standsAlone_of_opening h
  refine push_eq_ok.2 ⟨a.enter opening b.span.start, ?_, by simp [hb.loose_eq ha]⟩
  unfold Assembly.take
  cases ht : b.token <;> simp_all [Token.opening?]

theorem push_of_bar (hb : b.Regular) (h : b.token = .bar) (a : Assembly) :
    a.push g b = .ok a.splitBranch := by
  refine push_eq_ok.2 ⟨a.splitBranch, by simp [Assembly.take, h], ?_⟩
  simp [hb.loose_eq (by simp [h, Token.StandsAlone])]

theorem push_close_eq_ok {a a' : Assembly} (h : b.token = .close) :
    a.push g b = .ok a' ↔ ∃ e outer node, a.enclosures = e :: outer ∧
      e.opening.node g e.start a.level = .ok node ∧
      a' = (Assembly.mk e.outside outer).append (quantify node b.suffix ++ b.loose) := by
  simp only [push_eq_ok, Assembly.take, h, bind_eq_ok, Assembly.leave]
  constructor
  · rintro ⟨a₁, ⟨⟨node, a₂⟩, hl, ha₁⟩, rfl⟩
    split at hl
    next => cases hl
    next e outer he =>
      obtain ⟨node, hn, hl⟩ := bind_eq_ok.1 hl
      cases hl; cases ha₁
      exact ⟨e, outer, node, he, hn, by simp⟩
  · rintro ⟨e, outer, node, he, hn, rfl⟩
    exact ⟨_, ⟨(node, ⟨e.outside, outer⟩), by simp [he, hn, bind, Except.bind], rfl⟩, by simp⟩

theorem pushAll_cons {a a' : Assembly} {bs : List Block} :
    (b :: bs).foldlM (Assembly.push g) a = .ok a' ↔
      ∃ a₁, a.push g b = .ok a₁ ∧ bs.foldlM (Assembly.push g) a₁ = .ok a' := by
  rw [List.foldlM_cons, bind_eq_ok]

/-- A block either gives nodes, or ends a branch, or opens or closes a group. -/
theorem push_cases {a a' : Assembly} (h : a.push g b = .ok a') :
    (∃ nodes, b.Yields g nodes) ∨ b.token = .bar ∨ (∃ opening, b.token.opening? = some opening) ∨
      b.token = .close := by
  obtain ⟨a₁, ht, -⟩ := push_eq_ok.1 h
  cases hb : b.token with
  | openParen => exact .inr (.inr (.inl ⟨_, rfl⟩))
  | openGroup => exact .inr (.inr (.inl ⟨_, rfl⟩))
  | openConditional => exact .inr (.inr (.inl ⟨_, rfl⟩))
  | options => exact .inl ⟨_, .options hb⟩
  | close => exact .inr (.inr (.inr rfl))
  | bar => exact .inr (.inl rfl)
  | anchor => exact .inl ⟨_, .atom (by rw [hb]; rfl)⟩
  | charClass => exact .inl ⟨_, .atom (by rw [hb]; rfl)⟩
  | literal => exact .inl ⟨_, .atom (by rw [hb]; rfl)⟩
  | layout => exact .inl ⟨_, .layout hb⟩
  | namedReference text name =>
    simp only [Assembly.take, hb] at ht
    split at ht
    next hk => exact .inl ⟨_, .reference hb hk⟩
    next => cases ht
  | numericEscape text =>
    simp only [Assembly.take, hb, bind_eq_ok] at ht
    obtain ⟨nodes, hn, -⟩ := ht
    exact .inl ⟨nodes, .escape hb hn⟩

end Push

/-- `a` with further branches: the first of them goes on where `a` stands. -/
structure Assembly.Extends (a : Assembly) (branch : List Node) (branches : List (List Node))
    (a' : Assembly) : Prop where
  enclosures : a'.enclosures = a.enclosures
  branches : a'.level.branches = a.level.ended ++ (a.level.current ++ branch) :: branches

theorem Assembly.Extends.refl (a : Assembly) : a.Extends [] [] a :=
  ⟨rfl, by simp [Level.branches]⟩

theorem Assembly.Extends.of_append {a a' : Assembly} {nodes branch : List Node}
    {branches : List (List Node)} (h : (a.append nodes).Extends branch branches a') :
    a.Extends (nodes ++ branch) branches a' :=
  ⟨h.enclosures, by simpa [Assembly.append] using h.branches⟩

theorem Assembly.Extends.of_splitBranch {a a' : Assembly} {branch : List Node}
    {branches : List (List Node)} (h : a.splitBranch.Extends branch branches a') :
    a.Extends [] (branch :: branches) a' :=
  ⟨h.enclosures, by simpa [Assembly.splitBranch, Level.branches] using h.branches⟩

/-- What is put together from the blocks up to the close of the innermost open group, or to the
end. The hypothesis on `a'` says that every group is closed in the end. -/
theorem exists_assembles {g : GroupTable} {a a' : Assembly} (bs : List Block)
    (hr : ∀ b ∈ bs, b.Regular) (h : bs.foldlM (Assembly.push g) a = .ok a')
    (he : a'.enclosures = []) :
    ∃ inner rest branch branches a₁, bs = inner ++ rest ∧ Assembles g inner (branch :: branches) ∧
      a.Extends branch branches a₁ ∧ rest.foldlM (Assembly.push g) a₁ = .ok a' ∧
      ∀ b ∈ rest.head?, b.token = .close := by
  match bs with
  | [] => exact ⟨[], [], [], [], a, rfl, .nil, .refl a, h, by simp⟩
  | b :: bs =>
    obtain ⟨a₀, hb, h⟩ := pushAll_cons.1 h
    have hr' : ∀ c ∈ bs, c.Regular := fun c hc => hr c (by simp [hc])
    rcases push_cases hb with ⟨nodes, hy⟩ | hbar | ⟨opening, ho⟩ | hclose
    · rw [push_of_yields hy] at hb; cases hb
      obtain ⟨inner, rest, branch, branches, a₁, rfl, hA, hE, hf, hrest⟩ :=
        exists_assembles bs hr' h he
      exact ⟨b :: inner, rest, _, branches, a₁, rfl, .leaf hy hA, hE.of_append, hf, hrest⟩
    · rw [push_of_bar (hr b (by simp)) hbar] at hb; cases hb
      obtain ⟨inner, rest, branch, branches, a₁, rfl, hA, hE, hf, hrest⟩ :=
        exists_assembles bs hr' h he
      exact ⟨b :: inner, rest, _, _, a₁, rfl, .bar hbar hA, hE.of_splitBranch, hf, hrest⟩
    · rw [push_of_opening (hr b (by simp)) ho] at hb; cases hb
      obtain ⟨inner, rest, branch, branches, a₁, rfl, hA, hE, hf, hrest⟩ :=
        exists_assembles bs hr' h he
      -- the group has to be closed, since nothing is open in the end
      cases rest with
      | nil => cases hf; rw [hE.enclosures] at he; simp [Assembly.enter] at he
      | cons closer rest =>
        have hc : closer.token = .close := hrest closer rfl
        obtain ⟨a₂, hclose, hf⟩ := pushAll_cons.1 hf
        obtain ⟨e, outer, node, hencl, hnode, rfl⟩ := (push_close_eq_ok hc).1 hclose
        rw [hE.enclosures] at hencl; cases hencl
        obtain ⟨inner', rest', branch', branches', a₃, rfl, hA', hE', hf', hrest'⟩ :=
          exists_assembles rest (fun c hcm => hr' c (by simp [hcm])) hf he
        have hbr : a₁.level.branches = branch :: branches := by
          simpa [Assembly.enter] using hE.branches
        exact ⟨b :: inner ++ closer :: inner', rest', _, branches', a₃, by simp,
          .group ho (hbr ▸ hA) hc hnode hA', hE'.of_append, hf', hrest'⟩
    · exact ⟨[], b :: bs, [], [], a, rfl, .nil, .refl a,
        pushAll_cons.2 ⟨a₀, hb, h⟩, by simp [hclose]⟩
termination_by bs.length

/-- The tree of a list of blocks is the body made of the branches that they are put together as. -/
theorem exists_assembles_of_ofBlocks {g : GroupTable} {bs : List Block} {tree : Node}
    (hr : ∀ b ∈ bs, b.Regular) (h : Node.ofBlocks g bs = .ok tree) :
    ∃ branches, Assembles g bs branches ∧ tree = bodyNode branches := by
  obtain ⟨a, hf, ht⟩ := bind_eq_ok.1 h
  split at ht
  next he =>
    cases ht
    obtain ⟨inner, rest, branch, branches, a₁, rfl, hA, hE, hf', hrest⟩ :=
      exists_assembles bs hr hf he
    cases rest with
    | nil =>
      cases hf'
      refine ⟨_, by simpa using hA, ?_⟩
      rw [hE.branches]; simp
    | cons b rest =>
      obtain ⟨a₂, hb, -⟩ := pushAll_cons.1 hf'
      obtain ⟨e, outer, -, hencl, -⟩ := (push_close_eq_ok (hrest b rfl)).1 hb
      rw [hE.enclosures] at hencl; cases hencl
  next => cases ht

theorem Opening.node_congr {g : GroupTable} {level level' : Level}
    (h : level.branches = level'.branches) (opening : Opening) (start : Nat) :
    opening.node g start level = opening.node g start level' := by
  cases opening <;> simp only [Opening.node, h]

theorem Level.exists_branches_eq {branches : List (List Node)} (h : branches ≠ []) :
    ∃ level : Level, level.branches = branches :=
  ⟨⟨branches.dropLast, branches.getLast h⟩, List.dropLast_concat_getLast h⟩

/-- The stack puts together what `Assembles` says. -/
theorem Assembles.pushAll {g : GroupTable} {bs : List Block} {branches : List (List Node)}
    (h : Assembles g bs branches) : ∀ {branch rest}, branches = branch :: rest →
      (∀ b ∈ bs, b.Regular) → ∀ a : Assembly,
        ∃ a', bs.foldlM (Assembly.push g) a = .ok a' ∧ a.Extends branch rest a' := by
  induction h with
  | nil =>
    rintro _ _ ⟨⟩ - a
    exact ⟨a, rfl, .refl a⟩
  | @leaf b nodes bs branch branches hb h ih =>
    rintro _ _ ⟨⟩ hr a
    obtain ⟨-, hbs⟩ := List.forall_mem_cons.1 hr
    obtain ⟨a', hf, hE⟩ := ih rfl hbs (a.append (nodes ++ b.loose))
    exact ⟨a', pushAll_cons.2 ⟨_, push_of_yields hb a, hf⟩, hE.of_append⟩
  | bar hb h ih =>
    rintro _ _ ⟨⟩ hr a
    obtain ⟨hbar, hbs⟩ := List.forall_mem_cons.1 hr
    obtain ⟨branch, rest, rfl⟩ := List.exists_cons_of_ne_nil h.ne_nil
    obtain ⟨a', hf, hE⟩ := ih rfl hbs a.splitBranch
    exact ⟨a', pushAll_cons.2 ⟨_, push_of_bar hbar hb a, hf⟩, hE.of_splitBranch⟩
  | @group opener closer opening inner bs level node branch branches ho hi hc hn h ihi ih =>
    rintro _ _ ⟨⟩ hr a
    obtain ⟨first, others, hlevel⟩ := List.exists_cons_of_ne_nil hi.ne_nil
    obtain ⟨a₁, hf₁, hE₁⟩ := ihi hlevel (fun b hb => hr b (by simp [hb]))
      (a.enter opening opener.span.start)
    have hbranches : a₁.level.branches = level.branches := by
      rw [hE₁.branches, hlevel]
      rfl
    have hnode : opening.node g opener.span.start a₁.level = .ok node := by
      rw [Opening.node_congr hbranches, hn]
    have hclose : a₁.push g closer = .ok (a.append (quantify node closer.suffix ++ closer.loose)) :=
      (push_close_eq_ok hc).2 ⟨_, _, node, hE₁.enclosures, hnode, rfl⟩
    obtain ⟨a', hf, hE⟩ := ih rfl (fun b hb => hr b (by simp [hb]))
      (a.append (quantify node closer.suffix ++ closer.loose))
    refine ⟨a', ?_, hE.of_append⟩
    rw [List.cons_append, pushAll_cons]
    refine ⟨_, push_of_opening (hr opener (by simp)) ho a, ?_⟩
    rw [List.foldlM_append, bind_eq_ok]
    exact ⟨a₁, hf₁, pushAll_cons.2 ⟨_, hclose, hf⟩⟩

theorem Assembles.ofBlocks {g : GroupTable} {bs : List Block} {branches : List (List Node)}
    (h : Assembles g bs branches) (hr : ∀ b ∈ bs, b.Regular) :
    Node.ofBlocks g bs = .ok (bodyNode branches) := by
  obtain ⟨branch, rest, rfl⟩ := List.exists_cons_of_ne_nil h.ne_nil
  obtain ⟨a, hf, hE⟩ := h.pushAll rfl hr {}
  have hbranches : a.level.branches = branch :: rest := hE.branches
  refine bind_eq_ok.2 ⟨a, hf, ?_⟩
  rw [hE.enclosures, hbranches]

theorem exists_assembles_of_readTree {pattern : Text} {tree : Node} {groups : GroupTable}
    (h : readTree pattern = .ok (tree, groups)) :
    ∃ stream branches, blocksOf pattern = .ok stream ∧
      groups = GroupTable.ofCaptures stream.captures stream.names ∧
      Assembles groups stream.blocks branches ∧ tree = bodyNode branches := by
  simp only [readTree, bind_eq_ok] at h
  obtain ⟨stream, hs, root, hroot, h⟩ := h
  cases h
  obtain ⟨branches, hA, rfl⟩ := exists_assembles_of_ofBlocks (blocksOf_regular hs) hroot
  exact ⟨stream, branches, hs, rfl, hA, rfl⟩

end RegexAnatomy
