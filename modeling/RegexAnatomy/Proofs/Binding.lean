import Mathlib.Data.List.Forall2
import RegexAnatomy.Proofs.Assembly.Tests
import RegexAnatomy.Proofs.Block.Literals
import RegexAnatomy.Proofs.References
import RegexAnatomy.Proofs.Shape

/-! Which leaf of the tree a quantifier binds to. It binds to the leaf with which its
sequence starts, if only trivia stand behind the leaf and no parentheses are around
the two. Read off the tree in this way, the leaves are those of the blocks, each with
the quantifier of its block; only a numeric escape may give more leaves than one, and
then its quantifier is bound to the last unit of the literal text behind the digits. -/

namespace RegexAnatomy

structure BoundLeaf where
  text : Text
  kind : AtomKind
  quantifier : Text
  deriving DecidableEq

instance : DecidablePred AtomKind.IsToken
  | .literal | .anchor | .charClass | .backreference => isTrue trivial
  | .inlineOptions | .inlineComment | .lineComment | .blanks => isFalse id

mutual

/-- The leaves of a tree with `bound` behind it, in the order in which they are written. A group
that is tested stands for the literal that names it. -/
def Node.bindingsUnder (bound : Text) : Node → List BoundLeaf
  | .atom text kind _ => if kind.IsToken ∧ text ≠ [] then [⟨text, kind, bound⟩] else []
  | .sequence children quantifier wrapping _ =>
    bindingsAll
      (if wrapping = .bare ∧ children.tail.all Node.isTrivia then quantifier else []) children
  | .alternation branches => bindingsAll [] branches
  | .conditional condition yes no .. =>
    condition.bindings ++ yes.bindingsUnder [] ++ bindingsNo no

def Condition.bindings : Condition → List BoundLeaf
  | .group id => [⟨id.token, .literal, []⟩]
  | .expression test => test.bindingsUnder []

def bindingsNo : Option Node → List BoundLeaf
  | none => []
  | some no => no.bindingsUnder []

/-- What is bound is bound to the first node. -/
def bindingsAll (bound : Text) : List Node → List BoundLeaf
  | [] => []
  | node :: nodes => node.bindingsUnder bound ++ bindingsAll [] nodes

end

def Node.bindings (node : Node) : List BoundLeaf := node.bindingsUnder []

section Tree

variable {bound : Text}

theorem bindingsAll_nil (nodes : List Node) :
    bindingsAll [] nodes = nodes.flatMap Node.bindings := by
  induction nodes with
  | nil => rfl
  | cons node nodes ih => rw [bindingsAll, ih, List.flatMap_cons, Node.bindings]

theorem bindingsAll_cons (node : Node) (nodes : List Node) :
    bindingsAll bound (node :: nodes) =
      node.bindingsUnder bound ++ nodes.flatMap Node.bindings := by
  rw [bindingsAll, bindingsAll_nil]

@[simp] theorem bindings_trivia (items : List Trivia) :
    (items.map Trivia.node).flatMap Node.bindings = [] := by
  refine List.flatMap_eq_nil_iff.2 fun n hn => ?_
  obtain ⟨item, -, rfl⟩ := List.mem_map.1 hn
  cases hk : item.kind <;>
    simp [Node.bindings, Trivia.node, Node.plain, Node.bindingsUnder, hk, TriviaKind.atomKind,
      AtomKind.IsToken]

/-- Without a quantifier, or in parentheses, a sequence just holds the leaves of its parts. -/
theorem bindingsUnder_sequence {children : List Node} {quantifier : Text} {wrapping : Wrapping}
    {isTest : Bool} (h : quantifier = [] ∨ wrapping ≠ .bare) :
    (Node.sequence children quantifier wrapping isTest).bindingsUnder bound =
      children.flatMap Node.bindings := by
  rw [Node.bindingsUnder, ← bindingsAll_nil]
  congr 1
  rcases h with rfl | hw
  · split <;> rfl
  · rw [if_neg fun hbare => hw hbare.1]

theorem bindingsUnder_repeated (node : Node) (items : List Trivia) (quantifier : Text) :
    (Node.sequence (node :: items.map Trivia.node) quantifier .bare false).bindings =
      node.bindingsUnder quantifier := by
  rw [Node.bindings, Node.bindingsUnder, if_pos ⟨rfl, by simp⟩, bindingsAll_cons, bindings_trivia,
    List.append_nil]

theorem bindings_wrapped (wrapping : Wrapping) (node : Node) :
    (node.wrapped wrapping).bindings = node.bindings := by
  unfold Node.wrapped
  split
  · simp only [Node.bindings, bindingsUnder_sequence (.inl rfl)]
  · rw [Node.bindings, bindingsUnder_sequence (.inl rfl), List.flatMap_singleton]

theorem bindings_quantified (quantifier : Text) (node : Node) :
    (node.quantified quantifier).bindings = node.bindingsUnder quantifier := by
  unfold Node.quantified
  split
  next h => rw [h, Node.bindings]
  split
  · simp only [Node.bindings, bindingsUnder_sequence (.inr (by simp : Wrapping.bracket _ ≠ .bare))]
  · simp only [Node.bindings,
      bindingsUnder_sequence (.inr (by simp : Wrapping.construct _ _ _ ≠ .bare))]
  · exact bindingsUnder_repeated _ [] quantifier

theorem bindingsUnder_markTest (isTest : Bool) (node : Node) :
    (node.markTest isTest).bindingsUnder bound = node.bindingsUnder bound := by
  cases node with
  | sequence => simp only [Node.markTest, Node.bindingsUnder]
  | _ => rfl

theorem bindings_branchNode (branch : List Node) :
    (branchNode branch).bindings = branch.flatMap Node.bindings := by
  unfold branchNode
  split
  · rfl
  · simp
  · exact bindingsUnder_sequence (.inl rfl)

theorem bindings_bodyNode (branches : List (List Node)) :
    (bodyNode branches).bindings = branches.flatMap (·.flatMap Node.bindings) := by
  unfold bodyNode
  split
  · simp [bindings_branchNode]
  · rw [Node.bindings, Node.bindingsUnder, bindingsAll_nil, List.flatMap_map]
    exact congrArg (List.flatMap · _) (funext bindings_branchNode)

theorem bindingsNo_eq (no : Option Node) : bindingsNo no = no.toList.flatMap Node.bindings := by
  cases no <;> simp [bindingsNo, Node.bindings]

/-- What is behind a group is bound to none of its leaves. -/
theorem Node.IsGroup.bindingsUnder {node : Node} (h : node.IsGroup) (bound : Text) :
    node.bindingsUnder bound = node.bindings := by
  cases h with
  | wrapped hw => simp only [Node.bindings, bindingsUnder_sequence (.inr hw)]
  | conditional => rfl

theorem bindings_quantify (node : Node) (b : Block) :
    (quantify node b.suffix).flatMap Node.bindings = node.bindingsUnder b.suffix.quantifier := by
  obtain ⟨items, hb⟩ := b.suffix_before
  unfold quantify
  split
  · rw [List.flatMap_singleton, bindings_quantified]
  split
  next hq => rw [List.flatMap_cons, hb, bindings_trivia, List.append_nil, hq, Node.bindings]
  · rw [List.flatMap_singleton, hb, bindingsUnder_repeated]

theorem bindings_loose (b : Block) : b.loose.flatMap Node.bindings = [] := by
  obtain ⟨items, hl⟩ := b.loose_eq_trivia
  rw [hl, bindings_trivia]

end Tree

section Portable

theorem bindings_grouped (node : Node) : node.grouped.bindings = node.bindings :=
  bindings_wrapped _ node

theorem bindings_afterOptions (options : Text) (node : Node) :
    (node.afterOptions options).bindings = node.bindings := by
  have hoptions : (Node.plain options .inlineOptions).bindings = [] := by
    simp [Node.bindings, Node.plain, Node.bindingsUnder, AtomKind.IsToken]
  unfold Node.afterOptions
  split
  · rfl
  split
  · simp only [Node.bindings, bindingsUnder_sequence (.inl rfl)]
    rw [List.flatMap_cons, hoptions, List.nil_append]
  · rw [Node.concat, Node.bindings, bindingsUnder_sequence (.inl rfl)]
    simp [hoptions]

theorem bindings_branchChange (change : BranchChange) (branch : Node) :
    (change.apply branch).bindings = branch.bindings := by
  cases change with
  | keep => rfl
  | group => exact bindings_grouped branch
  | reopen options => rw [BranchChange.apply, bindings_grouped, bindings_afterOptions]

theorem bindings_conditionGrouped (condition : Condition) :
    condition.grouped.bindings = condition.bindings := by
  cases condition with
  | group => rfl
  | expression test =>
    rw [Condition.grouped, Condition.bindings, bindingsUnder_markTest]
    exact (bindings_grouped _).trans (bindingsUnder_markTest false test)

theorem bindingsUnder_planApply {bound : Text} (style : Style) (plan : Plan) (condition : Condition)
    (yes : Node) (no : Option Node) (hasBar testIsConstruct : Bool) (p : Portability) :
    (plan.apply style condition yes no hasBar testIsConstruct p).bindingsUnder bound =
      condition.bindings ++ yes.bindings ++ no.toList.flatMap Node.bindings := by
  cases style with
  | annotate => rw [Plan.apply, Node.bindingsUnder, bindingsNo_eq, Node.bindings]
  | restructure =>
    have hcondition : (if plan.groupTest then condition.grouped else condition).bindings =
        condition.bindings := by
      split
      · exact bindings_conditionGrouped condition
      · rfl
    have hyes : (if plan.groupYes then yes.grouped else yes).bindingsUnder [] = yes.bindings := by
      split
      · exact bindings_grouped yes
      · rfl
    have hno : (no.map plan.no.apply).toList.flatMap Node.bindings =
        no.toList.flatMap Node.bindings := by
      cases no <;> simp [bindings_branchChange]
    rw [Plan.apply, Node.bindingsUnder, bindingsNo_eq, hcondition, hyes, hno]

/-- Making conditionals portable does not change what quantifiers bind to. -/
theorem bindingsUnder_portable (style : Style) (node : Node) :
    ∀ bound, (node.portable style).1.bindingsUnder bound = node.bindingsUnder bound := by
  have all {nodes : List Node} (h : ∀ n ∈ nodes, ∀ bound,
      (n.portable style).1.bindingsUnder bound = n.bindingsUnder bound) (bound : Text) :
      bindingsAll bound (nodes.map fun n => (n.portable style).1) =
        bindingsAll bound nodes := by
    induction nodes generalizing bound with
    | nil => rfl
    | cons n nodes ih =>
      obtain ⟨hn, hnodes⟩ := List.forall_mem_cons.1 h
      rw [List.map_cons, bindingsAll, bindingsAll, hn, ih hnodes]
  induction node using Node.induction with
  | atom => exact fun _ => rfl
  | sequence children quantifier wrapping isTest ih =>
    intro bound
    have htrivia : (children.map fun n => (n.portable style).1).tail.all Node.isTrivia =
        children.tail.all Node.isTrivia := by
      rw [← List.map_tail, List.all_map]
      exact congrArg (List.all _) (funext fun n => isTrivia_portable style n)
    rw [portable_sequence, Node.bindingsUnder, Node.bindingsUnder, htrivia, all ih]
  | alternation branches ih =>
    intro bound
    rw [portable_alternation, Node.bindingsUnder, Node.bindingsUnder, all ih]
  | conditional condition yes no hasBar testIsConstruct p iht ihy ihn =>
    intro bound
    have hcondition : (condition.portable style).1.bindings = condition.bindings := by
      cases condition with
      | group => rfl
      | expression test => exact iht test rfl []
    have hyes : (yes.portable style).1.bindings = yes.bindings := ihy []
    have hno : (no.map fun n => (n.portable style).1).toList.flatMap Node.bindings =
        no.toList.flatMap Node.bindings := by
      cases no with
      | none => rfl
      | some n => simpa [Node.bindings] using ihn n rfl []
    rw [portable_conditional, bindingsUnder_planApply, Node.bindingsUnder, bindingsNo_eq,
      hcondition, hyes, hno, Node.bindings]

end Portable

def Token.leaf? : Token → Option (Text × AtomKind)
  | .anchor text => some (text, .anchor)
  | .charClass text => some (text, .charClass)
  | .literal text => some (text, .literal)
  | .namedReference text _ => some (text, .backreference)
  | _ => none

def literalBindings (text : Text) : List BoundLeaf :=
  if text = [] then [] else [⟨text, .literal, []⟩]

/-- The leaves of a block with what is bound to them. The quantifier of a numeric escape is bound to
the reference or the octal digits if that is all of the escape. Else it is bound to the last unit
of the text behind them, and nothing to the units before. -/
inductive Block.Binds (g : GroupTable) (b : Block) : List BoundLeaf → Prop
  | none (h : b.token.leaf? = none) (hne : ∀ text, b.token ≠ .numericEscape text) : Binds g b []
  | leaf {text : Text} {kind : AtomKind} (h : b.token.leaf? = some (text, kind)) :
      Binds g b [⟨text, kind, b.suffix.quantifier⟩]
  | escape {text : Text} (h : b.token = .numericEscape text) (ht : text = g.escapeHead text) :
      Binds g b [⟨text, .backreference, b.suffix.quantifier⟩]
  | unrepeated {text tail : Text} (h : b.token = .numericEscape text)
      (ht : text = g.escapeHead text ++ tail) (hne : tail ≠ []) (hq : b.suffix.quantifier = []) :
      Binds g b [⟨g.escapeHead text, .backreference, []⟩, ⟨tail, .literal, []⟩]
  | lastUnit {text start unit : Text} (h : b.token = .numericEscape text)
      (ht : text = g.escapeHead text ++ (start ++ unit)) (hs : IsLiteralUnits start)
      (hu : IsLiteralUnit unit) (hq : b.suffix.quantifier ≠ []) :
      Binds g b (⟨g.escapeHead text, .backreference, []⟩ ::
        (literalBindings start ++ [⟨unit, .literal, b.suffix.quantifier⟩]))

section Leaf

variable {g : GroupTable} {b : Block} {nodes : List Node} {text : Text}

theorem bindingsUnder_atom (kind : AtomKind) (isReference : Option Bool) (bound : Text)
    (hk : kind.IsToken) (ht : text ≠ []) :
    (Node.atom text kind isReference).bindingsUnder bound = [⟨text, kind, bound⟩] := by
  rw [Node.bindingsUnder, if_pos ⟨hk, ht⟩]

theorem bindings_literalNodes (w : Text) :
    (literalNodes w).flatMap Node.bindings = literalBindings w := by
  unfold literalNodes literalBindings
  split
  · rfl
  next hne =>
    rw [List.flatMap_singleton]
    exact bindingsUnder_atom .literal none [] trivial hne

/-- Behind the reference or the octal digits of a numeric escape stand whole units. -/
theorem Token.HoldsUnits.tail {tail : Text} (h : (Token.numericEscape text).HoldsUnits)
    (ht : text = g.escapeHead text ++ tail) : ∃ free, UnitRun free tail := by
  obtain ⟨free, digits, rest, he, -, hdigits, hrest, -⟩ := h text rfl
  obtain ⟨front, hhead, hfront⟩ := g.exists_digits_of_escapeHead text
  have hrun : UnitRun free (digits ++ rest) := unitRun_digits hdigits hrest
  rw [hhead, he, List.cons_append] at ht
  rw [(List.cons.inj ht).2] at hrun
  exact ⟨free, hrun.of_digits hfront⟩

theorem Block.Yields.binds (h : b.Yields g nodes) (hr : b.Regular) (hu : b.token.HoldsUnits) :
    b.Binds g (nodes.flatMap Node.bindings) := by
  have alone (text : Text) (kind : AtomKind) (isReference : Option Bool) (hk : kind.IsToken)
      (ht : text ≠ []) (hleaf : b.token.leaf? = some (text, kind)) :
      b.Binds g ((quantify (.atom text kind isReference) b.suffix).flatMap Node.bindings) := by
    rw [bindings_quantify, bindingsUnder_atom kind isReference _ hk ht]
    exact .leaf hleaf
  cases h with
  | layout h => exact .none (by rw [h]; rfl) (by simp [h])
  | @options text h =>
    have hbindings : [Node.plain text .inlineOptions].flatMap Node.bindings = [] := by
      simp [Node.bindings, Node.plain, Node.bindingsUnder, AtomKind.IsToken]
    rw [hbindings]
    exact .none (by rw [h]; rfl) (by simp [h])
  | atom h =>
    have ht := hr.text
    cases hb : b.token <;> simp [hb, Token.atom?, Token.text] at h ht
    all_goals subst h; exact alone _ _ _ trivial ht (by rw [hb]; rfl)
  | @reference text _ h hk =>
    have ht : text ≠ [] := by simpa [h, Token.text] using hr.text
    exact alone text _ _ trivial ht (by rw [h]; rfl)
  | escape h hn =>
    obtain ⟨escaped, rfl⟩ := hr.token.escape _ h
    obtain ⟨isReference, tail, ht, -, rfl⟩ := numericEscapeNodes_eq hn
    rw [List.drop_succ_cons, List.drop_zero] at ht
    rw [h] at hu
    obtain ⟨free, htail⟩ := hu.tail ht
    have hhead (bound : Text) := bindingsUnder_atom .backreference (some isReference) bound trivial
      (g.escapeHead_ne_nil ('\\' :: escaped))
    by_cases hnil : tail = []
    · subst hnil
      rw [List.append_nil] at ht
      rw [quantifyTail, if_pos rfl, bindings_quantify, Node.reference, hhead, ← ht]
      exact .escape h ht
    by_cases hq : b.suffix.quantifier = []
    · obtain ⟨items, hb⟩ := b.suffix_before
      have htail : (Node.literal tail).bindings = [⟨tail, .literal, []⟩] :=
        bindingsUnder_atom .literal none [] trivial hnil
      rw [quantifyTail, if_neg hnil, if_pos hq, List.flatMap_cons, List.flatMap_cons, hb,
        bindings_trivia, htail, Node.bindings, Node.reference, hhead]
      exact .unrepeated h ht hnil hq
    · obtain ⟨start, last, rfl, hstart, hlast⟩ := htail.exists_last hnil
      have hunit : (Node.literal last).bindingsUnder b.suffix.quantifier =
          [⟨last, .literal, b.suffix.quantifier⟩] :=
        bindingsUnder_atom .literal none _ trivial (splitUnit_append hlast).2
      rw [quantifyTail_last hstart hlast hq, List.flatMap_cons, List.flatMap_append,
        bindings_literalNodes, bindings_quantify, hunit, Node.bindings, Node.reference, hhead]
      exact .lastUnit h ht hstart.isLiteralUnits (isLiteralUnit_of_splitUnit hlast) hq

end Leaf

section Assembled

variable {g : GroupTable} {bs : List Block} {branches : List (List Node)}

theorem Block.binds_nil {b : Block} (h : b.token.leaf? = none)
    (hne : b.token.literalText? = none) : b.Binds g [] := by
  refine .none h fun text ht => ?_
  rw [ht] at hne
  cases hne

/-- The first of the nodes that a group with its suffix becomes has the leaves of the group. -/
theorem Node.IsGroup.bindings_of_quantify {node first : Node} {rest : List Node} {b : Block}
    (h : node.IsGroup) (hq : quantify node b.suffix = first :: rest) :
    first.bindings = node.bindings := by
  rcases quantify_eq_cons hq with ⟨-, rfl⟩ | ⟨-, rfl⟩ | rfl
  · rw [bindings_quantified, h.bindingsUnder]
  · rfl
  · obtain ⟨items, hb⟩ := b.suffix_before
    rw [hb, bindingsUnder_repeated, h.bindingsUnder]

/-- The test of a conditional that is the number or name of a group is a literal. -/
theorem Assembles.bindings_test {test : Node} {yes : List Node} {others : List (List Node)}
    {closer : Block} {token : Text} (h : Assembles g bs ((test :: yes) :: others))
    (hr : ∀ b ∈ bs, b.Regular) (hc : closer.token = .close) (ht : testToken test = some token)
    (hw : StartsWord token)
    (hword : ∀ b ∈ bs, StartsWord b.canonicalText → ∃ text, b.token = .literal text) :
    test.bindings = [⟨token, .literal, []⟩] := by
  have hne : token ≠ [] := by
    rintro rfl
    obtain ⟨c, hc, -⟩ := hw
    cases hc
  obtain ⟨paren, word, close, more, capture, hbs, hparen, hclose, -, hbare⟩ :=
    testLiteral?_eq_some.1 (h.testLiteral?_of_testToken hr ht hw hword [closer])
  obtain ⟨htoken, hsuffix, hloose⟩ := bareLiteral?_eq_some.1 hbare
  obtain ⟨yes', others', hbranches⟩ :=
    h.eq_literalTest hbs hc hparen htoken hsuffix hloose hclose
  have hgroup : (Node.sequence [.literal token] [] (.bracket capture) false).IsGroup :=
    .wrapped (by simp)
  obtain ⟨first, rest, hq⟩ := List.exists_cons_of_ne_nil (quantify_ne_nil _ close.suffix)
  rw [hq] at hbranches
  obtain ⟨rfl, -⟩ := List.cons.inj (List.cons.inj hbranches).1
  rw [hgroup.bindings_of_quantify hq, Node.bindings, bindingsUnder_sequence (.inl rfl),
    List.flatMap_singleton]
  exact bindingsUnder_atom .literal none [] trivial hne

/-- A group has the leaves of its branches. -/
theorem Assembles.bindings_opening {opening : Opening} {start : Nat} {level : Level} {node : Node}
    {closer : Block} (h : Assembles g bs level.branches) (hr : ∀ b ∈ bs, b.Regular)
    (hc : closer.token = .close) (hn : opening.node g start level = .ok node)
    (hresolve : ∀ token, (g.resolve token).isSome → StartsWord token)
    (hword : ∀ b ∈ bs, StartsWord b.canonicalText → ∃ text, b.token = .literal text) :
    node.bindings = level.branches.flatMap (·.flatMap Node.bindings) := by
  cases opening with
  | bracket => cases hn; rw [bindings_wrapped, bindings_bodyNode]
  | group => cases hn; rw [bindings_wrapped, bindings_bodyNode]
  | conditional =>
    obtain ⟨test, yes, no, hlevel, hn⟩ := conditional_opening_eq_ok.1 hn
    obtain ⟨condition, hcondition, rfl⟩ := conditionalNode_eq_ok.1 hn
    rw [hlevel] at h
    have hbindings : condition.bindings = test.bindings := by
      cases condition with
      | group id =>
        obtain ⟨token, ht, hid⟩ := testCondition_group hcondition
        rw [h.bindings_test hr hc ht (hresolve token (by rw [hid]; rfl)) hword,
          ← GroupTable.resolve_token hid]
        rfl
      | expression marked =>
        rw [testCondition_expression hcondition]
        exact bindingsUnder_markTest true test
    rw [hlevel, Node.bindings, Node.bindingsUnder, bindingsNo_eq, hbindings]
    change test.bindings ++ (branchNode yes).bindings ++ _ = _
    rw [bindings_branchNode]
    cases no <;> simp [bindings_branchNode]

/-- The leaves of the branches are those of the blocks, with what is bound to them. -/
theorem Assembles.binds (h : Assembles g bs branches) (hr : ∀ b ∈ bs, b.Regular)
    (hu : ∀ b ∈ bs, b.token.HoldsUnits)
    (hresolve : ∀ token, (g.resolve token).isSome → StartsWord token)
    (hword : ∀ b ∈ bs, StartsWord b.canonicalText → ∃ text, b.token = .literal text) :
    ∃ rows, List.Forall₂ (Block.Binds g) bs rows ∧
      branches.flatMap (·.flatMap Node.bindings) = rows.flatten := by
  induction h with
  | nil => exact ⟨[], .nil, rfl⟩
  | @leaf b nodes bs branch branches hb h ih =>
    obtain ⟨hbr, hbs⟩ := List.forall_mem_cons.1 hr
    obtain ⟨hbu, hus⟩ := List.forall_mem_cons.1 hu
    obtain ⟨rows, hrows, hbindings⟩ := ih hbs hus fun c hc => hword c (by simp [hc])
    refine ⟨nodes.flatMap Node.bindings :: rows, .cons (hb.binds hbr hbu) hrows, ?_⟩
    rw [List.flatten_cons, ← hbindings]
    simp [bindings_loose]
  | @bar b bs branches hb h ih =>
    obtain ⟨rows, hrows, hbindings⟩ := ih (List.forall_mem_cons.1 hr).2
      (List.forall_mem_cons.1 hu).2 fun c hc => hword c (by simp [hc])
    have hbar : b.Binds g [] := Block.binds_nil (by rw [hb]; rfl) (by rw [hb]; rfl)
    exact ⟨[] :: rows, .cons hbar hrows, by simpa using hbindings⟩
  | @group opener closer opening inner bs level node branch branches ho hi hc hn h ihi ih =>
    have hri : ∀ b ∈ inner, b.Regular := fun b hb => hr b (by simp [hb])
    have hwi : ∀ b ∈ inner, StartsWord b.canonicalText → ∃ text, b.token = .literal text :=
      fun b hb => hword b (by simp [hb])
    obtain ⟨inside, hinside, hbindingsInside⟩ := ihi hri (fun b hb => hu b (by simp [hb])) hwi
    obtain ⟨rows, hrows, hbindings⟩ := ih (fun b hb => hr b (by simp [hb]))
      (fun b hb => hu b (by simp [hb])) fun b hb => hword b (by simp [hb])
    have hopener : opener.Binds g [] := by
      refine Block.binds_nil ?_ ?_ <;> cases ht : opener.token <;> rw [ht] at ho <;>
        first | rfl | cases ho
    have hcloser : closer.Binds g [] := Block.binds_nil (by rw [hc]; rfl) (by rw [hc]; rfl)
    have hnode := hi.bindings_opening hri hc hn hresolve hwi
    have hgroup := (Opening.isGroup_node hn).bindingsUnder closer.suffix.quantifier
    refine ⟨[] :: inside ++ [] :: rows, ?_, ?_⟩
    · exact .cons hopener (List.rel_append hinside (.cons hcloser hrows))
    · simp only [List.flatMap_cons, List.flatMap_append, bindings_quantify, bindings_loose, hgroup,
        hnode, hbindingsInside] at hbindings ⊢
      simp [← hbindings]

end Assembled

structure UnitBinding (pattern : Text) (stream : Stream) : Prop where
  blocks : stream.BindsUnits
  bindings : ∀ style read, Pattern.read style pattern = .ok read →
    ∃ rows, List.Forall₂ (Block.Binds read.groups) stream.blocks rows ∧
      read.root.bindings = rows.flatten

theorem unitBinding_blocksOf {pattern : Text} {stream : Stream}
    (h : blocksOf pattern = .ok stream) : UnitBinding pattern stream := by
  refine ⟨blocksOf_bindsUnits h, fun style read hread => ?_⟩
  obtain ⟨⟨tree, groups⟩, htree, hread⟩ := bind_eq_ok.1 hread
  cases hread
  obtain ⟨stream', branches, hs, rfl, hA, rfl⟩ := exists_assembles_of_readTree htree
  obtain rfl : stream = stream' := Except.ok.inj (h.symm.trans hs)
  obtain ⟨rows, hrows, hbindings⟩ := hA.binds (blocksOf_regular hs) (holdsUnits_blocksOf hs)
    (fun token ht => (isWord_of_resolve (names_isWord hs) ht).startsWord)
    fun b hb => next_literal_of_blocksOf hs hb
  refine ⟨rows, hrows, ?_⟩
  rw [Node.bindings, bindingsUnder_portable, ← hbindings]
  exact bindings_bodyNode branches

/-- An escape that is split behind its first digit, with a quantifier behind a comment, and one that
is a reference and nothing else. -/
def splitEscapePattern : Text := "(a)b\\x41c*\\18gh(?#i)+\\1?".toList

def splitEscapeBindings : List BoundLeaf :=
  [⟨['a'], .literal, []⟩, ⟨['b'], .literal, []⟩, ⟨"\\x41".toList, .literal, []⟩,
    ⟨['c'], .literal, ['*']⟩, ⟨"\\1".toList, .backreference, []⟩, ⟨"8g".toList, .literal, []⟩,
    ⟨['h'], .literal, ['+']⟩, ⟨"\\1".toList, .backreference, ['?']⟩]

theorem unitBinding_blocksOf_splitEscapePattern :
    ∃ stream read, blocksOf splitEscapePattern = .ok stream ∧
      UnitBinding splitEscapePattern stream ∧
      Pattern.read .annotate splitEscapePattern = .ok read ∧
      read.root.bindings = splitEscapeBindings := by
  have hblocks : (blocksOf splitEscapePattern).isOk := by decide +kernel
  have hread : (Pattern.read .annotate splitEscapePattern).toOption.map (·.root.bindings) =
      some splitEscapeBindings := by decide +kernel
  cases hs : blocksOf splitEscapePattern with
  | error e => rw [hs] at hblocks; cases hblocks
  | ok stream =>
    cases hp : Pattern.read .annotate splitEscapePattern with
    | error e => rw [hp] at hread; cases hread
    | ok read =>
      rw [hp] at hread
      exact ⟨stream, read, rfl, unitBinding_blocksOf hs, rfl, Option.some.inj hread⟩

end RegexAnatomy
