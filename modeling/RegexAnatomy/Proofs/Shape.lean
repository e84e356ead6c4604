import RegexAnatomy.Proofs.Assembly.Units
import RegexAnatomy.Proofs.Options.Replay
import RegexAnatomy.Proofs.Portable.Restructured

/-! The normal form of parse trees. Which nodes may stand where depends on what is
around them: a group takes a bare sequence in as its own, an alternation needs a
group of its own, and a test is marked as one. Every node is placed by the one that
holds it, and the form is kept by all the ways in which a tree is put together and
by either style of making it portable. -/

namespace RegexAnatomy

inductive Place where
  | root
  /-- A whole branch, of an alternation or of a conditional. -/
  | branch
  /-- All that a group holds. -/
  | sole
  /-- One of several nodes in a row, or what a bare sequence repeats. -/
  | part
  /-- What a conditional tests. -/
  | test
  deriving DecidableEq

def Wrapping.place (wrapping : Wrapping) (children : List Node) : Place :=
  if wrapping ≠ .bare ∧ children.length = 1 then .sole else .part

def Node.parts : Node → List (Place × Node)
  | .atom .. => []
  | .sequence children _ wrapping _ => children.map (wrapping.place children, ·)
  | .alternation branches => branches.map (.branch, ·)
  | .conditional (.group _) yes no .. => (.branch, yes) :: no.toList.map (.branch, ·)
  | .conditional (.expression test) yes no .. =>
    (.test, test) :: (.branch, yes) :: no.toList.map (.branch, ·)

def Node.isTrivia (node : Node) : Bool :=
  node.isAtom .inlineComment || node.isAtom .lineComment || node.isAtom .blanks

def Node.FitsAt (place : Place) : Node → Prop
  | .atom text kind isReference =>
    (text = [] → place = .root ∨ place = .branch ∨ place = .sole) ∧
      (isReference.isSome ↔ kind = .backreference)
  | .sequence children quantifier wrapping isTest =>
    children ≠ [] ∧ (isTest = true ↔ place = .test) ∧
      (wrapping = .bare → quantifier = [] →
        2 ≤ children.length ∧ (place = .root ∨ place = .branch)) ∧
      (wrapping = .bare → quantifier ≠ [] →
        ∃ node items, children = node :: items ∧ node.isTrivia = false ∧
          ∀ item ∈ items, item.isTrivia)
  | .alternation branches => 2 ≤ branches.length ∧ (place = .root ∨ place = .sole)
  | .conditional _ _ no hasBar _ _ => hasBar = no.isSome

/-- The node fits where it stands, and so do its parts, all the way down. -/
inductive Node.Shaped : Place → Node → Prop
  | intro {place : Place} {node : Node} (fits : node.FitsAt place)
      (parts : ∀ part ∈ node.parts, Shaped part.1 part.2) : Shaped place node

section Constructors

variable {place : Place}

theorem shaped_iff {node : Node} :
    node.Shaped place ↔ node.FitsAt place ∧ ∀ part ∈ node.parts, part.2.Shaped part.1 :=
  ⟨fun ⟨fits, parts⟩ => ⟨fits, parts⟩, fun ⟨fits, parts⟩ => ⟨fits, parts⟩⟩

theorem shaped_atom {text : Text} {kind : AtomKind} {isReference : Option Bool} :
    (Node.atom text kind isReference).Shaped place ↔
      (Node.atom text kind isReference).FitsAt place := by
  rw [shaped_iff]
  simp [Node.parts]

theorem shaped_sequence {children : List Node} {quantifier : Text} {wrapping : Wrapping}
    {isTest : Bool} : (Node.sequence children quantifier wrapping isTest).Shaped place ↔
      (Node.sequence children quantifier wrapping isTest).FitsAt place ∧
        ∀ c ∈ children, c.Shaped (wrapping.place children) := by
  rw [shaped_iff]
  simp [Node.parts]

theorem shaped_alternation {branches : List Node} : (Node.alternation branches).Shaped place ↔
    (2 ≤ branches.length ∧ (place = .root ∨ place = .sole)) ∧
      ∀ b ∈ branches, b.Shaped .branch := by
  rw [shaped_iff]
  simp [Node.parts, Node.FitsAt]

theorem shaped_conditional {condition : Condition} {yes : Node} {no : Option Node}
    {hasBar testIsConstruct : Bool} {p : Portability} :
    (Node.conditional condition yes no hasBar testIsConstruct p).Shaped place ↔
      hasBar = no.isSome ∧ (∀ test, condition = .expression test → test.Shaped .test) ∧
        yes.Shaped .branch ∧ ∀ n ∈ no, n.Shaped .branch := by
  rw [shaped_iff]
  cases condition <;> simp [Node.parts, Node.FitsAt]

end Constructors

section Places

variable {p q : Place} {node : Node}

theorem Node.Shaped.imp (h : node.Shaped p) (hfits : node.FitsAt p → node.FitsAt q) :
    node.Shaped q := by
  obtain ⟨fits, parts⟩ := h
  exact ⟨hfits fits, parts⟩

/-- Everything but a test can be the root. -/
theorem Node.Shaped.root (h : node.Shaped p) (hp : p ≠ .test) : node.Shaped .root := by
  refine h.imp fun hfits => ?_
  cases node <;> simp_all [Node.FitsAt]

/-- What can be one of several nodes can stand everywhere but in the place of a test. -/
theorem Node.Shaped.of_part (h : node.Shaped .part) (hq : q ≠ .test) : node.Shaped q := by
  refine h.imp fun hfits => ?_
  cases node with
  | sequence children quantifier wrapping isTest =>
    obtain ⟨hne, htest, hbare, hrepeated⟩ := hfits
    refine ⟨hne, by simpa [hq] using htest, fun hw hquantifier => ?_, hrepeated⟩
    have hplace := (hbare hw hquantifier).2
    simp at hplace
  | _ => simp_all [Node.FitsAt]

/-- A group can hold anything alone but a bare sequence, which it takes in. -/
theorem Node.Shaped.sole (h : node.Shaped .root)
    (hbare : ∀ children isTest, node ≠ .sequence children [] .bare isTest) :
    node.Shaped .sole := by
  refine h.imp fun hfits => ?_
  cases node with
  | sequence children quantifier wrapping isTest =>
    obtain ⟨hne, htest, -, hrepeated⟩ := hfits
    refine ⟨hne, by simpa using htest, ?_, hrepeated⟩
    rintro rfl rfl
    exact absurd rfl (hbare children isTest)
  | _ => simp_all [Node.FitsAt]

/-- A branch that is neither empty nor a bare sequence can become one of several nodes. -/
theorem Node.Shaped.part (h : node.Shaped .branch)
    (hbare : ∀ children isTest, node ≠ .sequence children [] .bare isTest)
    (hempty : ∀ kind isReference, node ≠ .atom [] kind isReference) : node.Shaped .part := by
  refine h.imp fun hfits => ?_
  cases node with
  | atom text kind isReference =>
    refine ⟨?_, hfits.2⟩
    rintro rfl
    exact absurd rfl (hempty kind isReference)
  | sequence children quantifier wrapping isTest =>
    obtain ⟨hne, htest, -, hrepeated⟩ := hfits
    refine ⟨hne, by simpa using htest, ?_, hrepeated⟩
    rintro rfl rfl
    exact absurd rfl (hbare children isTest)
  | _ => simp_all [Node.FitsAt]

/-- Marking is all that a node needs to become a test. -/
theorem shaped_markTest :
    (node.markTest true).Shaped .test ↔ (node.markTest false).Shaped .part := by
  cases node with
  | sequence =>
    simp [Node.markTest, shaped_sequence, Node.FitsAt]
  | atom => simp [Node.markTest, shaped_atom, Node.FitsAt]
  | alternation => simp [Node.markTest, shaped_alternation]
  | conditional => simp [Node.markTest, shaped_conditional]

/-- Nothing but a test is marked as one. -/
theorem Node.Shaped.markTest_false (h : node.Shaped p) (hp : p ≠ .test) :
    node.markTest false = node := by
  cases node with
  | sequence children quantifier wrapping isTest =>
    have htest : isTest = false := by simpa [hp] using (shaped_sequence.1 h).1.2.1
    rw [htest, Node.markTest]
  | _ => rfl

theorem Node.Shaped.markTest_true (h : node.Shaped .test) : node.markTest true = node := by
  cases node with
  | sequence children quantifier wrapping isTest =>
    have htest : isTest = true := by simpa using (shaped_sequence.1 h).1.2.1
    rw [htest, Node.markTest]
  | _ => rfl

end Places

section Trivia

/-- No comment and no run of blanks is empty. -/
theorem text_ne_nil_of_blocksOf {pattern : Text} {stream : Stream}
    (h : blocksOf pattern = .ok stream) :
    ∀ b ∈ stream.blocks, ∀ item ∈ b.items, item.text ≠ [] := by
  obtain ⟨last, hcuts, -⟩ := blocksOf_eq_ok.1 h
  exact hcuts.forall_mem fun s b s₁ =>
    Cursor.forall_mem_items fun _ _ => text_ne_nil_of_mem_takeTrivia

@[simp] theorem isTrivia_node (item : Trivia) : item.node.isTrivia = true := by
  cases hk : item.kind <;> simp [Trivia.node, hk, Node.isTrivia, Node.isAtom, Node.plain,
    TriviaKind.atomKind]

end Trivia

section Assembled

variable {node : Node}

theorem shaped_plain {text : Text} {kind : AtomKind} (ht : text ≠ []) (hk : kind ≠ .backreference)
    (place : Place) : (Node.plain text kind).Shaped place :=
  shaped_atom.2 ⟨fun h => absurd h ht, by simpa using hk⟩

theorem shaped_reference {text : Text} (ht : text ≠ []) (isReference : Bool) (place : Place) :
    (Node.reference text isReference).Shaped place :=
  shaped_atom.2 ⟨fun h => absurd h ht, by simp⟩

theorem shaped_empty {place : Place} (h : place = .root ∨ place = .branch ∨ place = .sole) :
    Node.empty.Shaped place :=
  shaped_atom.2 ⟨fun _ => h, by simp⟩

theorem shaped_trivia {item : Trivia} (h : item.text ≠ []) (place : Place) :
    item.node.Shaped place :=
  shaped_plain h (by cases item.kind <;> simp [TriviaKind.atomKind]) place

theorem Node.Shaped.quantified (h : node.Shaped .part) (ht : node.isTrivia = false)
    (quantifier : Text) : (node.quantified quantifier).Shaped .part := by
  unfold Node.quantified
  split
  · exact h
  next hq =>
    split
    case h_1 | h_2 =>
      obtain ⟨⟨hne, htest, -⟩, hparts⟩ := shaped_sequence.1 h
      exact shaped_sequence.2 ⟨⟨hne, htest, by simp, by simp⟩, hparts⟩
    case h_3 =>
      refine shaped_sequence.2 ⟨⟨by simp, by simp, fun _ h => absurd h hq, fun _ _ => ?_⟩, ?_⟩
      · exact ⟨_, [], rfl, ht, by simp⟩
      · simpa [Wrapping.place] using h

/-- A node with its quantifier and the trivia between them. -/
theorem Node.Shaped.quantify (h : node.Shaped .part) (ht : node.isTrivia = false) {s : Suffix}
    (hs : ∀ n ∈ s.before, n.isTrivia = true ∧ n.Shaped .part) :
    ∀ n ∈ quantify node s, n.Shaped .part := by
  have hboth : ∀ n ∈ node :: s.before, n.Shaped .part :=
    List.forall_mem_cons.2 ⟨h, fun n hn => (hs n hn).2⟩
  unfold RegexAnatomy.quantify
  split
  · exact List.forall_mem_singleton.2 (h.quantified ht _)
  split
  · exact hboth
  next hq =>
    refine List.forall_mem_singleton.2 (shaped_sequence.2 ⟨⟨by simp, by simp, ?_, ?_⟩, ?_⟩)
    · exact fun _ h => absurd h hq
    · exact fun _ _ => ⟨node, s.before, rfl, ht, fun n hn => (hs n hn).1⟩
    · simpa [Wrapping.place] using hboth

theorem Node.Shaped.quantifyTail (h : node.Shaped .part) (ht : node.isTrivia = false) {s : Suffix}
    (hs : ∀ n ∈ s.before, n.isTrivia = true ∧ n.Shaped .part) (tail : Text) :
    ∀ n ∈ quantifyTail node tail s, n.Shaped .part := by
  have hliteral {text : Text} (hne : text ≠ []) : (Node.literal text).Shaped .part :=
    shaped_plain hne (by simp) _
  unfold RegexAnatomy.quantifyTail
  split
  · exact h.quantify ht hs
  next htail =>
    split
    · exact List.forall_mem_cons.2
        ⟨h, List.forall_mem_cons.2 ⟨hliteral htail, fun n hn => (hs n hn).2⟩⟩
    next =>
      have hlast := (hliteral (splitLastUnit_snd_ne_nil htail)).quantify rfl hs
      refine List.forall_mem_append.2 ⟨List.forall_mem_cons.2 ⟨h, ?_⟩, hlast⟩
      split
      · simp
      next hstart => exact List.forall_mem_singleton.2 (hliteral hstart)

section Block

variable {g : GroupTable} {b : Block} (hi : ∀ item ∈ b.items, item.text ≠ [])
include hi

theorem shaped_before : ∀ n ∈ b.suffix.before, n.isTrivia = true ∧ n.Shaped .part := by
  intro n hn
  obtain ⟨item, hitem, rfl⟩ := Block.mem_items_of_mem_before hn
  exact ⟨isTrivia_node item, shaped_trivia (hi item hitem) _⟩

theorem shaped_loose : ∀ n ∈ b.loose, n.Shaped .part := by
  intro n hn
  obtain ⟨item, hitem, rfl⟩ := Block.mem_items_of_mem_loose hn
  exact shaped_trivia (hi item hitem) _

theorem Block.Yields.shaped {nodes : List Node} (h : b.Yields g nodes) (hr : b.Regular) :
    ∀ n ∈ nodes, n.Shaped .part := by
  have hs := shaped_before hi
  cases h with
  | layout => simp
  | options h =>
    have ht := hr.text
    simp only [h, Token.text] at ht
    exact List.forall_mem_singleton.2 (shaped_plain (ht (by simp)) (by simp) _)
  | @atom node h =>
    have ht := hr.text
    have hnode : node.Shaped .part ∧ node.isTrivia = false := by
      cases hb : b.token <;> simp [hb, Token.atom?, Token.text] at h ht <;> subst h <;>
        exact ⟨shaped_plain ht (by simp) _, rfl⟩
    exact hnode.1.quantify hnode.2 hs
  | reference h =>
    have ht := hr.text
    simp only [h, Token.text] at ht
    exact (shaped_reference (ht (by simp)) _ _).quantify rfl hs
  | escape h hn =>
    obtain ⟨isReference, tail, -, -, rfl⟩ := numericEscapeNodes_eq hn
    exact (shaped_reference (g.escapeHead_ne_nil _) _ _).quantifyTail rfl hs tail

end Block

/-- A group takes in a bare sequence and holds anything else alone. -/
theorem Node.Shaped.wrapped (h : node.Shaped .root) {wrapping : Wrapping} (hw : wrapping ≠ .bare) :
    (node.wrapped wrapping).Shaped .part := by
  unfold Node.wrapped
  split
  next children isTest =>
    obtain ⟨⟨hne, htest, htwo, -⟩, hparts⟩ := shaped_sequence.1 h
    have hlength : 2 ≤ children.length := (htwo rfl rfl).1
    have hplace : wrapping.place children = Wrapping.bare.place children := by
      simp [Wrapping.place, show children.length ≠ 1 by omega]
    refine shaped_sequence.2 ⟨⟨hne, by simpa using htest, fun h => absurd h hw,
      fun h => absurd h hw⟩, ?_⟩
    rwa [hplace]
  next hbare =>
    refine shaped_sequence.2 ⟨⟨by simp, by simp, fun h => absurd h hw, fun h => absurd h hw⟩, ?_⟩
    simpa [Wrapping.place, hw] using h.sole hbare

theorem shaped_branchNode {branch : List Node} (h : ∀ n ∈ branch, n.Shaped .part) :
    (branchNode branch).Shaped .branch := by
  match branch with
  | [] => exact shaped_empty (by simp)
  | [node] => exact (h node (by simp)).of_part (by simp)
  | node :: next :: nodes =>
    refine shaped_sequence.2 ⟨⟨by simp, by simp, by simp, by simp⟩, ?_⟩
    simpa [Wrapping.place] using h

theorem shaped_bodyNode {branches : List (List Node)} (hne : branches ≠ [])
    (h : ∀ branch ∈ branches, ∀ n ∈ branch, n.Shaped .part) :
    (bodyNode branches).Shaped .root := by
  match branches with
  | [branch] => exact (shaped_branchNode (h branch (by simp))).root (by simp)
  | branch :: next :: rest =>
    refine shaped_alternation.2 ⟨⟨by simp, .inl rfl⟩, List.forall_mem_map.2 fun br hbr => ?_⟩
    exact shaped_branchNode (h br hbr)

/-- What closes makes a node that can be one of several, if what it holds can be. -/
theorem Opening.shaped_node {g : GroupTable} {start : Nat} {level : Level} {opening : Opening}
    (h : ∀ branch ∈ level.branches, ∀ n ∈ branch, n.Shaped .part)
    (hn : opening.node g start level = .ok node) : node.Shaped .part := by
  have hbody : (bodyNode level.branches).Shaped .root :=
    shaped_bodyNode (by simp [Level.branches]) h
  cases opening with
  | bracket => cases hn; exact hbody.wrapped (by simp)
  | group => cases hn; exact hbody.wrapped (by simp)
  | conditional =>
    obtain ⟨test, yes, no, hlevel, hn⟩ := conditional_opening_eq_ok.1 hn
    obtain ⟨condition, hc, rfl⟩ := conditionalNode_eq_ok.1 hn
    rw [hlevel] at h
    obtain ⟨hfirst, hno⟩ := List.forall_mem_cons.1 h
    obtain ⟨htest, hyes⟩ := List.forall_mem_cons.1 hfirst
    refine shaped_conditional.2 ⟨by cases no <;> rfl, ?_, shaped_branchNode hyes, ?_⟩
    · rintro marked rfl
      rw [testCondition_expression hc, shaped_markTest, htest.markTest_false (by simp)]
      exact htest
    · intro n hn
      obtain ⟨branch, hbranch, rfl⟩ := Option.map_eq_some_iff.1 hn
      exact shaped_branchNode (hno branch (by simp [hbranch]))

theorem Assembles.shaped {g : GroupTable} {bs : List Block} {branches : List (List Node)}
    (h : Assembles g bs branches) (hr : ∀ b ∈ bs, b.Regular)
    (hi : ∀ b ∈ bs, ∀ item ∈ b.items, item.text ≠ []) :
    ∀ branch ∈ branches, ∀ n ∈ branch, n.Shaped .part := by
  induction h with
  | nil => simp
  | leaf hb h ih =>
    obtain ⟨hbr, hbs⟩ := List.forall_mem_cons.1 hr
    obtain ⟨hbi, hbsi⟩ := List.forall_mem_cons.1 hi
    obtain ⟨h1, h2⟩ := List.forall_mem_cons.1 (ih hbs hbsi)
    simp only [List.forall_mem_cons, List.forall_mem_append]
    exact ⟨⟨⟨hb.shaped hbi hbr, shaped_loose hbi⟩, h1⟩, h2⟩
  | bar hb h ih =>
    have := ih (List.forall_mem_cons.1 hr).2 (List.forall_mem_cons.1 hi).2
    simpa using this
  | @group opener closer opening inner bs level node branch branches ho hinner hc hn h ihi ih =>
    obtain ⟨h1, h2⟩ :=
      List.forall_mem_cons.1 (ih (fun b hb => hr b (by simp [hb])) fun b hb => hi b (by simp [hb]))
    have hcloser : ∀ item ∈ closer.items, item.text ≠ [] := hi closer (by simp)
    have hnode : node.Shaped .part := Opening.shaped_node
      (ihi (fun b hb => hr b (by simp [hb])) fun b hb => hi b (by simp [hb])) hn
    have htrivia : node.isTrivia = false := by
      cases Opening.isGroup_node hn <;> rfl
    simp only [List.forall_mem_cons, List.forall_mem_append]
    exact ⟨⟨⟨hnode.quantify htrivia (shaped_before hcloser), shaped_loose hcloser⟩, h1⟩, h2⟩

theorem shaped_of_readTree {pattern : Text} {tree : Node} {groups : GroupTable}
    (h : readTree pattern = .ok (tree, groups)) : tree.Shaped .root := by
  obtain ⟨stream, branches, hs, -, hA, rfl⟩ := exists_assembles_of_readTree h
  exact shaped_bodyNode hA.ne_nil (hA.shaped (blocksOf_regular hs) (text_ne_nil_of_blocksOf hs))

end Assembled

section Portable

variable {place : Place} {node : Node}

/-- A group fits wherever its content could, and among others. -/
theorem Node.Shaped.grouped (h : node.Shaped place) (hp : place ≠ .test) :
    node.grouped.Shaped .part :=
  (h.root hp).wrapped (by simp [Wrapping.nonCapturing])

theorem Node.Shaped.afterOptions (h : node.Shaped .branch) (hempty : node.isEmptyBranch = false)
    (options : Text) : (node.afterOptions options).Shaped .branch := by
  unfold Node.afterOptions
  split
  · exact h
  next hne =>
    have hoptions : (Node.plain options .inlineOptions).Shaped .part :=
      shaped_plain hne (by simp) _
    split
    next children isTest =>
      -- the children stay among others, since a bare sequence has two of them
      obtain ⟨⟨-, htest, -⟩, hparts⟩ := shaped_sequence.1 h
      refine shaped_sequence.2 ⟨⟨by simp, htest, fun _ _ => ⟨?_, by simp⟩, by simp⟩, ?_⟩
      · have hlength : 2 ≤ children.length := ((shaped_sequence.1 h).1.2.2.1 rfl rfl).1
        rw [List.length_cons]
        omega
      · simpa [Wrapping.place] using And.intro hoptions hparts
    next hbare =>
      have hpart : node.Shaped .part := by
        refine h.part hbare fun kind isReference => ?_
        rintro rfl
        simp [Node.isEmptyBranch] at hempty
      refine shaped_sequence.2 ⟨⟨by simp, by simp, by simp, by simp⟩, ?_⟩
      simpa [Wrapping.place] using And.intro hoptions hpart

theorem Condition.grouped_shaped {condition : Condition}
    (h : ∀ test, condition = .expression test → test.Shaped .test) :
    ∀ test, condition.grouped = .expression test → test.Shaped .test := by
  intro test ht
  cases condition with
  | group id => cases ht
  | expression old =>
    cases ht
    have hold := h old rfl
    have hpart : (old.markTest false).Shaped .part := by
      rwa [← shaped_markTest, hold.markTest_true]
    have hgrouped := hpart.grouped (by simp)
    rwa [shaped_markTest, hgrouped.markTest_false (by simp)]

theorem shaped_planNo {yes : Node} (h : node.Shaped .branch) :
    ((planNo yes node).apply node).Shaped .branch := by
  unfold planNo
  split
  next hopen =>
    have hempty : node.isEmptyBranch = false := by simpa using hopen.2
    exact ((h.afterOptions hempty _).grouped (by simp)).of_part (by simp)
  next =>
    split
    · exact (h.grouped (by simp)).of_part (by simp)
    · exact h

/-- Carrying out a plan, or recording it, keeps the form of a conditional. -/
theorem shaped_planApply (style : Style) {condition : Condition} {yes : Node} {no : Option Node}
    {hasBar testIsConstruct : Bool} {p : Portability}
    (h : (Node.conditional condition yes no hasBar testIsConstruct p).Shaped place) :
    ((planConditional condition yes no).apply style condition yes no hasBar testIsConstruct
      p).Shaped place := by
  obtain ⟨hbar, htest, hyes, hno⟩ := shaped_conditional.1 h
  cases style with
  | annotate => exact shaped_conditional.2 ⟨hbar, htest, hyes, hno⟩
  | restructure =>
    refine shaped_conditional.2 ⟨by simpa using hbar, ?_, ?_, ?_⟩
    · split
      · exact Condition.grouped_shaped htest
      · exact htest
    · split
      · exact (hyes.grouped (by simp)).of_part (by simp)
      · exact hyes
    · intro n hn
      obtain ⟨old, hold, rfl⟩ := Option.map_eq_some_iff.1 hn
      subst hold
      exact shaped_planNo (hno old rfl)

@[simp] theorem isTrivia_portable (style : Style) (node : Node) :
    (node.portable style).1.isTrivia = node.isTrivia := by
  cases node with
  | conditional => cases style <;> rfl
  | _ => simp [Node.isTrivia, Node.isAtom]

theorem shaped_portable (style : Style) (node : Node) :
    ∀ place, node.Shaped place → (node.portable style).1.Shaped place := by
  induction node using Node.induction with
  | atom => exact fun _ h => h
  | sequence children quantifier wrapping isTest ih =>
    intro place h
    obtain ⟨⟨hne, htest, hbare, hrepeated⟩, hparts⟩ := shaped_sequence.1 h
    rw [portable_sequence]
    refine shaped_sequence.2 ⟨⟨by simpa using hne, htest, by simpa using hbare, ?_⟩, ?_⟩
    · intro hw hq
      obtain ⟨node, items, rfl, hnode, hitems⟩ := hrepeated hw hq
      exact ⟨_, _, rfl, by simpa using hnode, by simpa using hitems⟩
    · have hplace : wrapping.place (children.map fun n => (n.portable style).1) =
          wrapping.place children := by simp [Wrapping.place]
      rw [hplace]
      exact List.forall_mem_map.2 fun c hc => ih c hc _ (hparts c hc)
  | alternation branches ih =>
    intro place h
    obtain ⟨⟨hlength, hplace⟩, hparts⟩ := shaped_alternation.1 h
    rw [portable_alternation]
    refine shaped_alternation.2 ⟨⟨by simpa using hlength, hplace⟩, ?_⟩
    exact List.forall_mem_map.2 fun b hb => ih b hb _ (hparts b hb)
  | conditional condition yes no hasBar testIsConstruct p iht ihy ihn =>
    intro place h
    obtain ⟨hbar, htest, hyes, hno⟩ := shaped_conditional.1 h
    have hparts : (Node.conditional (condition.portable style).1 (yes.portable style).1
        (no.map fun n => (n.portable style).1) hasBar testIsConstruct p).Shaped place := by
      refine shaped_conditional.2 ⟨by simpa using hbar, ?_, ihy _ hyes, ?_⟩
      · intro test ht
        cases condition with
        | group id => cases ht
        | expression old =>
          cases ht
          exact iht old rfl _ (htest old rfl)
      · intro n hn
        obtain ⟨old, hold, rfl⟩ := Option.map_eq_some_iff.1 hn
        exact ihn old hold _ (hno old hold)
    rw [portable_conditional]
    have happlied := shaped_planApply style hparts
    rwa [planConditional_portable] at happlied

end Portable

/-- The tree of every pattern that is accepted, in either style, has the normal form. -/
theorem shaped_read {style : Style} {pattern : Text} {read : Pattern}
    (h : Pattern.read style pattern = .ok read) : read.root.Shaped .root := by
  obtain ⟨⟨tree, groups⟩, ht, h⟩ := bind_eq_ok.1 h
  cases h
  exact shaped_portable style tree .root (shaped_of_readTree ht)

/-- An empty branch in a group, a comment in front of a quantifier, and a conditional with an empty
branch whose test and second branch are wrapped. -/
def wrappingPattern : Text := "(x|)y(?#c)*(?(?i:z)|a(?i)b)".toList

theorem shaped_read_wrappingPattern :
    ∃ read, Pattern.read .restructure wrappingPattern = .ok read ∧
      read.portable = "(x|)y(?#c)*(?(?:(?i:z))|(?:a(?i)b))".toList ∧ read.root.Shaped .root := by
  have hread : (Pattern.read .restructure wrappingPattern).toOption.map Pattern.portable =
      some "(x|)y(?#c)*(?(?:(?i:z))|(?:a(?i)b))".toList := by decide +kernel
  obtain ⟨read, hp, hportable⟩ := toOption_map_eq_some.1 hread
  exact ⟨read, hp, hportable, shaped_read hp⟩

end RegexAnatomy
