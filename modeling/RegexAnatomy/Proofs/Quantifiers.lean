import RegexAnatomy.Proofs.Assembly.Tests
import RegexAnatomy.Proofs.References
import RegexAnatomy.Proofs.RoundTrip

/-! The quantifiers of a tree are those of the blocks it was built from, in the same
order. One thing can get lost: a quantifier right behind the test of a conditional
that names a group, since only the group is kept of such a test. It always gets
lost then, so the quantifiers are all there exactly when there is none of these. -/

namespace RegexAnatomy

mutual

def Node.quantifiers : Node → List Text
  | .atom .. => []
  | .sequence children quantifier .. => quantifiersAll children ++ [quantifier].filter (· ≠ [])
  | .alternation branches => quantifiersAll branches
  | .conditional condition yes no .. => condition.quantifiers ++ yes.quantifiers ++ quantifiersNo no

def Condition.quantifiers : Condition → List Text
  | .group _ => []
  | .expression test => test.quantifiers

def quantifiersNo : Option Node → List Text
  | none => []
  | some no => no.quantifiers

def quantifiersAll : List Node → List Text
  | [] => []
  | node :: nodes => node.quantifiers ++ quantifiersAll nodes

end

/-- The canonical spelling of a quantifier. The trivia before a lazy mark stay before it as long as
there is a lazy mark. -/
def Repetition.written (r : Repetition) : Text :=
  let quantifier := canonicalRepetition r.quantifier r.lazyMark.isSome
  if r.lazyMark.isSome ∧ quantifier.getLast? = some '?' then
    quantifier.dropLast ++ triviaText (r.lazyMark.getD []) ++ ['?']
  else quantifier

def Block.quantifiers (b : Block) : List Text :=
  (b.repetition.map Repetition.written).toList.filter (· ≠ [])

section Tree

@[simp] theorem quantifiersAll_append (s t : List Node) :
    quantifiersAll (s ++ t) = quantifiersAll s ++ quantifiersAll t := by
  induction s with
  | nil => rfl
  | cons node s ih => simp [quantifiersAll, ih]

@[simp] theorem quantifiersAll_singleton (node : Node) :
    quantifiersAll [node] = node.quantifiers := by
  simp [quantifiersAll]

@[simp] theorem quantifiersAll_trivia (items : List Trivia) :
    quantifiersAll (items.map Trivia.node) = [] := by
  induction items with
  | nil => rfl
  | cons item items ih => simpa [quantifiersAll, Trivia.node, Node.plain, Node.quantifiers] using ih

@[simp] theorem quantifiers_wrapped (wrapping : Wrapping) (node : Node) :
    (node.wrapped wrapping).quantifiers = node.quantifiers := by
  unfold Node.wrapped
  split <;> simp [Node.quantifiers]

@[simp] theorem quantifiers_quantified (quantifier : Text) (node : Node) :
    (node.quantified quantifier).quantifiers =
      node.quantifiers ++ [quantifier].filter (· ≠ []) := by
  unfold Node.quantified
  split
  next h => simp [h]
  next => split <;> simp [Node.quantifiers]

@[simp] theorem quantifiers_markTest (isTest : Bool) (node : Node) :
    (node.markTest isTest).quantifiers = node.quantifiers := by
  cases node <;> simp [Node.markTest, Node.quantifiers]

@[simp] theorem quantifiers_branchNode (branch : List Node) :
    (branchNode branch).quantifiers = quantifiersAll branch := by
  unfold branchNode
  split
  · rfl
  · simp
  · simp [Node.concat, Node.quantifiers]

theorem quantifiersAll_branches (branches : List (List Node)) :
    quantifiersAll (branches.map branchNode) = branches.flatMap quantifiersAll := by
  induction branches with
  | nil => rfl
  | cons branch branches ih => simp [quantifiersAll, ih]

@[simp] theorem quantifiers_bodyNode (branches : List (List Node)) :
    (bodyNode branches).quantifiers = branches.flatMap quantifiersAll := by
  unfold bodyNode
  split
  · simp
  · rw [Node.quantifiers, quantifiersAll_branches]

end Tree

section Leaf

variable {g : GroupTable} {b : Block}

theorem Repetition.suffix_quantifier (r : Repetition) : r.suffix.quantifier = r.written := by
  unfold Repetition.suffix Repetition.written
  rcases r.lazyMark with - | items
  · simp
  · cases items with
    | nil =>
      simp only [Option.isSome_some, Option.getD_some, true_and, triviaText, List.flatMap_nil,
        List.append_nil]
      split
      next h => rw [List.dropLast_append_getLast? _ h]
      next => rfl
    | cons item items =>
      simp only [Option.isSome_some, Option.getD_some, true_and]
      split <;> rfl

theorem Block.quantifiers_eq (b : Block) :
    b.quantifiers = [b.suffix.quantifier].filter (· ≠ []) := by
  cases h : b.repetition with
  | none => simp [Block.quantifiers, Block.suffix, h]
  | some r => simp [Block.quantifiers, Block.suffix, h, r.suffix_quantifier]

@[simp] theorem Block.quantifiersAll_loose (b : Block) : quantifiersAll b.loose = [] := by
  obtain ⟨items, hl⟩ := b.loose_eq_trivia
  simp [hl]

theorem Block.quantifiers_of_standsAlone (hb : b.Regular) (ha : b.token.StandsAlone) :
    b.quantifiers = [] := by
  simp [b.quantifiers_eq, hb.suffix_eq ha]

theorem quantifiersAll_quantify (node : Node) (b : Block) :
    quantifiersAll (quantify node b.suffix) = node.quantifiers ++ b.quantifiers := by
  obtain ⟨items, hb⟩ := b.suffix_before
  rw [b.quantifiers_eq]
  unfold quantify
  split
  · simp
  split
  next h => simp [hb, h, quantifiersAll]
  next => simp [hb, quantifiersAll, Node.quantifiers]

theorem quantifiersAll_quantifyTail (head : Node) (tail : Text) (b : Block) :
    quantifiersAll (quantifyTail head tail b.suffix) = head.quantifiers ++ b.quantifiers := by
  have literal (text : Text) : (Node.literal text).quantifiers = [] := rfl
  obtain ⟨items, hb⟩ := b.suffix_before
  unfold quantifyTail
  split
  · exact quantifiersAll_quantify head b
  split
  next h => simp [b.quantifiers_eq, h, hb, quantifiersAll, literal]
  next =>
    have hstart : quantifiersAll (if (splitLastUnit tail).1 = [] then []
        else [.literal (splitLastUnit tail).1]) = [] := by
      split <;> simp [quantifiersAll, literal]
    simp only [List.cons_append, quantifiersAll, quantifiersAll_append, hstart,
      quantifiersAll_quantify, literal, List.nil_append]

theorem Block.Yields.quantifiers {nodes : List Node} (h : b.Yields g nodes) (hr : b.Regular) :
    quantifiersAll nodes = b.quantifiers := by
  rcases h.cases hr with ⟨ht, rfl⟩ | ⟨text, ht, rfl⟩ | ⟨_, _, _, tail, -, -, -, -, rfl⟩
  · simp [Block.quantifiers, (hr.layout ht).1, quantifiersAll]
  · rw [Block.quantifiers_of_standsAlone hr (by simp [ht, Token.StandsAlone])]
    rfl
  · rw [quantifiersAll_quantifyTail]
    rfl

end Leaf

section Groups

variable {g : GroupTable} {start : Nat} {level : Level} {node : Node} {opening : Opening}

/-- A group holds the quantifiers of its branches, but for those of a test that names a group. -/
theorem Opening.quantifiers_node (h : opening.node g start level = .ok node) :
    node.quantifiers = level.branches.flatMap quantifiersAll ∨
      opening = .conditional ∧ ∃ test yes branches token,
        level.branches = (test :: yes) :: branches ∧ testToken test = some token ∧
        (g.resolve token).isSome ∧
        level.branches.flatMap quantifiersAll = test.quantifiers ++ node.quantifiers := by
  cases opening with
  | bracket => cases h; simp
  | group => cases h; simp
  | conditional =>
    obtain ⟨test, yes, no, hlevel, h⟩ := conditional_opening_eq_ok.1 h
    obtain ⟨condition, hc, rfl⟩ := conditionalNode_eq_ok.1 h
    have hno : quantifiersNo (no.map branchNode) = no.toList.flatMap quantifiersAll := by
      cases no <;> simp [quantifiersNo]
    cases condition with
    | group id =>
      obtain ⟨token, ht, hid⟩ := testCondition_group hc
      refine .inr ⟨rfl, test, yes, _, token, hlevel, ht, by simp [hid], ?_⟩
      simp [hlevel, Node.quantifiers, Condition.quantifiers, quantifiersAll, hno]
    | expression marked =>
      rw [testCondition_expression hc]
      simp [hlevel, Node.quantifiers, Condition.quantifiers, quantifiersAll, hno]

theorem Opening.quantifiers_sublist (h : opening.node g start level = .ok node) :
    node.quantifiers.Sublist (level.branches.flatMap quantifiersAll) := by
  rcases Opening.quantifiers_node h with he | ⟨-, _, _, _, _, -, -, -, he⟩
  · exact he ▸ List.Sublist.refl _
  · exact he ▸ List.sublist_append_right _ _

end Groups

section Tests

variable {g : GroupTable}

/-- The quantifiers of a test in plain parentheses around a single leaf. -/
theorem exists_quantifier_of_testToken {test : Node} {token : Text}
    (h : testToken test = some token) : ∃ quantifier,
      test.quantifiers = [quantifier].filter (· ≠ []) ∧
        test.render = '(' :: token ++ [')'] ++ quantifier := by
  unfold testToken at h
  split at h <;> cases h
  next kind isReference quantifier capture isTest =>
  exact ⟨quantifier, by simp [Node.quantifiers, quantifiersAll],
    by simp [Node.render, Wrapping.around]⟩

end Tests

section Assembled

variable {g : GroupTable} {bs : List Block} {branches : List (List Node)}

/-- No quantifier is doubled or moved when blocks are put together. -/
theorem Assembles.quantifiers_sublist (h : Assembles g bs branches) (hr : ∀ b ∈ bs, b.Regular) :
    (branches.flatMap quantifiersAll).Sublist (bs.flatMap Block.quantifiers) := by
  induction h with
  | nil => exact List.Sublist.refl _
  | @leaf b nodes bs branch branches hb h ih =>
    obtain ⟨hbr, hbs⟩ := List.forall_mem_cons.1 hr
    simpa [hb.quantifiers hbr] using (ih hbs).append_left b.quantifiers
  | @bar b bs branches hb h ih =>
    simpa [quantifiersAll] using (ih (List.forall_mem_cons.1 hr).2).trans
      (List.sublist_append_right b.quantifiers _)
  | @group opener closer opening inner bs level node branch branches ho hi hc hn h ihi ih =>
    have hnode := (Opening.quantifiers_sublist hn).trans (ihi fun b hb => hr b (by simp [hb]))
    have hrest := (ih fun b hb => hr b (by simp [hb])).append_left closer.quantifiers
    simpa [quantifiersAll_quantify] using
      (hnode.append hrest).trans (List.sublist_append_right opener.quantifiers _)

/-- No quantifier is lost either where no test of a group is repeated. -/
theorem Assembles.quantifiers_eq (h : Assembles g bs branches) (hr : ∀ b ∈ bs, b.Regular)
    (h0 : g.resolve [] = none) (hq : ¬ HasQuantifiedGroupTest g bs) :
    branches.flatMap quantifiersAll = bs.flatMap Block.quantifiers := by
  induction h with
  | nil => rfl
  | @leaf b nodes bs branch branches hb h ih =>
    obtain ⟨hbr, hbs⟩ := List.forall_mem_cons.1 hr
    have ih := ih hbs fun hm => hq (hm.mono (List.suffix_cons b bs).isInfix)
    simpa [hb.quantifiers hbr] using ih
  | @bar b bs branches hb h ih =>
    obtain ⟨hbr, hbs⟩ := List.forall_mem_cons.1 hr
    have ih := ih hbs fun hm => hq (hm.mono (List.suffix_cons b bs).isInfix)
    simpa [quantifiersAll, Block.quantifiers_of_standsAlone hbr (by simp [hb, Token.StandsAlone])]
      using ih
  | @group opener closer opening inner bs level node branch branches ho hi hc hn h ihi ih =>
    have hro : opener.Regular := hr opener (by simp)
    have hri : ∀ b ∈ inner, b.Regular := fun b hb => hr b (by simp [hb])
    have ihi := ihi hri fun hm => hq (hm.mono ⟨[opener], closer :: bs, by simp⟩)
    have ih := ih (fun b hb => hr b (by simp [hb])) fun hm =>
      hq (hm.mono ⟨opener :: inner ++ [closer], [], by simp⟩)
    have hnode : node.quantifiers = level.branches.flatMap quantifiersAll := by
      refine (Opening.quantifiers_node hn).elim id ?_
      rintro ⟨rfl, test, yes, branches, token, hlevel, htoken, hg, he⟩
      have htest : test.quantifiers = [] := by
        rw [hlevel] at hi
        rcases hi.render_groupTest hri htoken hg h0 with ht | ⟨paren, word, close, tail, rfl, ht⟩
        · obtain ⟨quantifier, hquantifiers, hrender⟩ := exists_quantifier_of_testToken htoken
          rw [ht, List.self_eq_append_right] at hrender
          rw [hquantifiers, hrender]
          rfl
        · refine absurd ⟨opener, paren, word, close, ⟨[], tail ++ closer :: bs, by simp⟩, ?_, ht⟩ hq
          cases ht : opener.token <;> simp_all [Token.opening?]
      rw [he, htest, List.nil_append]
    have halone : opener.token.StandsAlone := Token.standsAlone_of_opening ho
    simp [quantifiersAll_quantify, hnode, ihi, ← ih, Block.quantifiers_of_standsAlone hro halone]

/-- An open group is closed by a later block. -/
theorem Assembles.exists_close (h : Assembles g bs branches) {before after : List Block}
    {opener : Block} (hbs : bs = before ++ opener :: after) (ho : opener.token.opening?.isSome) :
    ∃ closer ∈ after, closer.token = .close := by
  induction h generalizing before after with
  | nil => simp at hbs
  | leaf hb h ih =>
    rcases List.cons_eq_append_iff.1 hbs with ⟨rfl, he⟩ | ⟨before, rfl, he⟩
    · cases he
      rw [hb.token_ne.1] at ho
      cases ho
    · exact ih he
  | bar hb h ih =>
    rcases List.cons_eq_append_iff.1 hbs with ⟨rfl, he⟩ | ⟨before, rfl, he⟩
    · cases he
      rw [hb] at ho
      cases ho
    · exact ih he
  | @group first closer opening inner bs level node branch branches hopen hi hc hn h ihi ih =>
    have hclose (he : opener = closer) : False := by
      rw [he, hc] at ho
      cases ho
    rw [List.cons_append] at hbs
    rcases List.cons_eq_append_iff.1 hbs with ⟨rfl, he⟩ | ⟨before, rfl, he⟩
    · cases he
      exact ⟨closer, by simp, hc⟩
    rcases List.append_eq_append_iff.1 he with ⟨mid, rfl, hmid⟩ | ⟨mid, rfl, hmid⟩
    · rcases List.cons_eq_append_iff.1 hmid with ⟨rfl, hmid⟩ | ⟨mid, rfl, hmid⟩
      · exact (hclose (List.cons.inj hmid).1.symm).elim
      · exact ih (List.cons.inj hmid).2
    · rcases List.cons_eq_append_iff.1 hmid with ⟨rfl, hmid⟩ | ⟨mid, rfl, rfl⟩
      · exact (hclose (List.cons.inj hmid).1).elim
      · exact ⟨closer, by simp, hc⟩

/-- A literal in plain parentheses with a quantifier right behind them is read as a test that may
name a group, and it holds the quantifier. -/
theorem Assembles.exists_test {paren word close closer : Block} {after tail : List Block}
    {capture : Option Nat} {text : Text} (h : Assembles g bs branches)
    (hbs : bs ++ closer :: after = paren :: word :: close :: tail) (hcloser : closer.token = .close)
    (hparen : paren.token = .openParen capture) (hword : word.token = .literal text)
    (hsuffix : word.suffix = {}) (hloose : word.loose = []) (hclose : close.token = .close)
    (hbefore : close.suffix.before = []) : ∃ test yes others, branches = (test :: yes) :: others ∧
      testToken test = some text ∧ test.quantifiers = close.quantifiers := by
  obtain ⟨yes, others, rfl⟩ := h.eq_literalTest hbs hcloser hparen hword hsuffix hloose hclose
  rw [quantify, if_pos hbefore]
  refine ⟨_, yes, others, rfl, ?_, ?_⟩
  · rw [testToken_quantified (.wrapped (by simp))]
    rfl
  · rw [quantifiers_quantified, close.quantifiers_eq]
    rfl

/-- The four blocks are the opener of a conditional and its test, which names a group and has a
quantifier right behind it. -/
def QuantifiesGroupTest (g : GroupTable) (conditional paren word close : Block) : Prop :=
  conditional.token = .openConditional ∧ (∃ capture, paren.token = .openParen capture) ∧
    (g.resolve word.canonicalText).isSome ∧ close.token = .close ∧
    close.suffix.before = [] ∧ close.suffix.quantifier ≠ []

theorem hasQuantifiedGroupTest_iff : HasQuantifiedGroupTest g bs ↔
    ∃ before conditional paren word close after,
      bs = before ++ conditional :: paren :: word :: close :: after ∧
        QuantifiesGroupTest g conditional paren word close := by
  constructor
  · rintro ⟨conditional, paren, word, close, ⟨before, after, rfl⟩, h⟩
    exact ⟨before, conditional, paren, word, close, after, by simp, h⟩
  · rintro ⟨before, conditional, paren, word, close, after, rfl, h⟩
    exact ⟨conditional, paren, word, close, ⟨before, after, by simp⟩, h⟩

theorem HasQuantifiedGroupTest.of_cons {b : Block} (h : HasQuantifiedGroupTest g (b :: bs))
    (hb : b.token ≠ .openConditional) : HasQuantifiedGroupTest g bs := by
  obtain ⟨before, conditional, paren, word, close, after, he, hq⟩ := hasQuantifiedGroupTest_iff.1 h
  rcases List.cons_eq_append_iff.1 he with ⟨rfl, hbs⟩ | ⟨before, rfl, hbs⟩
  · cases hbs
    exact absurd hq.1 hb
  · exact hasQuantifiedGroupTest_iff.2 ⟨before, _, _, _, _, after, hbs, hq⟩

/-- A repeated test of a group that stands in a group or behind it is that of the group itself, or
is inside it, or behind it. -/
theorem HasQuantifiedGroupTest.cases {opener closer : Block} {inner : List Block}
    (h : HasQuantifiedGroupTest g (opener :: inner ++ closer :: bs))
    (hi : Assembles g inner branches) (hc : closer.token = .close)
    (hw : ∀ b ∈ opener :: inner ++ closer :: bs,
      (g.resolve b.canonicalText).isSome → b.token ≠ .close) :
    (∃ paren word close tail, inner ++ closer :: bs = paren :: word :: close :: tail ∧
      QuantifiesGroupTest g opener paren word close) ∨
    HasQuantifiedGroupTest g inner ∨ HasQuantifiedGroupTest g bs := by
  obtain ⟨before, conditional, paren, word, close, after, he, hq⟩ := hasQuantifiedGroupTest_iff.1 h
  have ⟨hconditional, ⟨capture, hparen⟩, hresolves, _⟩ := hq
  have hword : word.token ≠ .close := hw word (by rw [he]; simp) hresolves
  rw [List.cons_append] at he
  rcases List.cons_eq_append_iff.1 he with ⟨rfl, hinner⟩ | ⟨before, rfl, hinner⟩
  · obtain ⟨rfl, hinner⟩ := List.cons.inj hinner
    exact .inl ⟨paren, word, close, after, (List.cons.inj he).2, hq⟩
  refine .inr ?_
  rcases List.append_eq_append_iff.1 hinner with ⟨mid, rfl, hmid⟩ | ⟨mid, rfl, hmid⟩
  · rcases List.cons_eq_append_iff.1 hmid with ⟨rfl, hmid⟩ | ⟨mid, rfl, hmid⟩
    · obtain ⟨rfl, -⟩ := List.cons.inj hmid
      rw [hconditional] at hc
      cases hc
    · exact .inr (hasQuantifiedGroupTest_iff.2 ⟨mid, _, _, _, _, after, (List.cons.inj hmid).2, hq⟩)
  -- the conditional is opened inside the group, so its test is closed inside it
  rcases mid with - | ⟨first, - | ⟨second, - | ⟨third, - | ⟨fourth, mid⟩⟩⟩⟩
  · obtain ⟨rfl, -⟩ := List.cons.inj hmid
    rw [hconditional] at hc
    cases hc
  · simp only [List.cons_append, List.nil_append, List.cons.injEq] at hmid
    rw [hmid.2.1, hc] at hparen
    cases hparen
  · simp only [List.cons_append, List.nil_append, List.cons.injEq] at hmid
    rw [hmid.2.2.1] at hword
    exact absurd hc hword
  · simp only [List.cons_append, List.nil_append, List.cons.injEq] at hmid
    obtain ⟨rfl, rfl, rfl, -⟩ := hmid
    have hsplit : before ++ [conditional, paren, word] =
        (before ++ [conditional]) ++ paren :: [word] := by
      simp
    obtain ⟨c, hmem, hclose⟩ := hi.exists_close hsplit (by rw [hparen]; rfl)
    rw [List.mem_singleton.1 hmem] at hclose
    exact absurd hclose hword
  · simp only [List.cons_append, List.cons.injEq] at hmid
    obtain ⟨rfl, rfl, rfl, rfl, -⟩ := hmid
    exact .inl (hasQuantifiedGroupTest_iff.2 ⟨before, _, _, _, _, mid, rfl, hq⟩)

/-- Of a test that names a group only the group is kept. -/
theorem Opening.quantifiers_lt {start : Nat} {level : Level} {node test : Node} {yes : List Node}
    {others : List (List Node)} {token : Text}
    (h : Opening.conditional.node g start level = .ok node)
    (hlevel : level.branches = (test :: yes) :: others) (htoken : testToken test = some token)
    (hg : (g.resolve token).isSome) (hq : test.quantifiers ≠ []) :
    node.quantifiers.length < (level.branches.flatMap quantifiersAll).length := by
  obtain ⟨test', yes', no, hlevel', h⟩ := conditional_opening_eq_ok.1 h
  obtain ⟨condition, hc, rfl⟩ := conditionalNode_eq_ok.1 h
  rw [hlevel] at hlevel'
  obtain ⟨⟨rfl, rfl⟩, rfl⟩ : (test = test' ∧ yes = yes') ∧ others = no.toList := by
    simpa using hlevel'
  have hno : quantifiersNo (no.map branchNode) = no.toList.flatMap quantifiersAll := by
    cases no <;> simp [quantifiersNo]
  have hcondition : condition.quantifiers = [] := by
    rcases testCondition_eq_ok.1 hc with ⟨_, id, -, -, rfl⟩ | ⟨hnone, -⟩
    · rfl
    · rw [(hnone token htoken).1] at hg
      cases hg
  have := List.length_pos_iff.2 hq
  simp only [hlevel, Node.quantifiers, hcondition, hno, quantifiers_branchNode, List.flatMap_cons,
    quantifiersAll, List.nil_append, List.length_append]
  omega

/-- A quantifier is lost with every test of a group that is repeated. -/
theorem Assembles.quantifiers_lost (h : Assembles g bs branches) (hr : ∀ b ∈ bs, b.Regular)
    (hw : ∀ b ∈ bs, (g.resolve b.canonicalText).isSome →
      b.token = .literal b.canonicalText ∧ b.suffix = {} ∧ b.loose = [])
    (hq : HasQuantifiedGroupTest g bs) :
    (branches.flatMap quantifiersAll).length < (bs.flatMap Block.quantifiers).length := by
  induction h with
  | nil =>
    obtain ⟨_, _, _, _, hin, -⟩ := hq
    simpa using hin.length_le
  | @leaf b nodes bs branch branches hb h ih =>
    obtain ⟨hbr, hbs⟩ := List.forall_mem_cons.1 hr
    have hne : b.token ≠ .openConditional := by
      intro ht
      have hno := hb.token_ne.1
      rw [ht] at hno
      cases hno
    have ih := ih hbs (fun c hc => hw c (by simp [hc])) (hq.of_cons hne)
    simpa [hb.quantifiers hbr] using ih
  | @bar b bs branches hb h ih =>
    obtain ⟨hbr, hbs⟩ := List.forall_mem_cons.1 hr
    have ih := ih hbs (fun c hc => hw c (by simp [hc])) (hq.of_cons (by simp [hb]))
    simpa [quantifiersAll, Block.quantifiers_of_standsAlone hbr (by simp [hb, Token.StandsAlone])]
      using ih
  | @group opener closer opening inner bs level node branch branches ho hi hc hn h ihi ih =>
    have hri : ∀ b ∈ inner, b.Regular := fun b hb => hr b (by simp [hb])
    have hrs : ∀ b ∈ bs, b.Regular := fun b hb => hr b (by simp [hb])
    have hnode := (Opening.quantifiers_sublist hn).length_le
    have hinner := (hi.quantifiers_sublist hri).length_le
    have hrest := (h.quantifiers_sublist hrs).length_le
    have hlost : node.quantifiers.length < (inner.flatMap Block.quantifiers).length ∨
        ((branch :: branches).flatMap quantifiersAll).length <
          (bs.flatMap Block.quantifiers).length := by
      rcases hq.cases hi hc fun b hb hg => by simp [(hw b hb hg).1] with
        ⟨paren, word, close, tail, he, hconditional, ⟨capture, hparen⟩, hg, hclose, hb, hne⟩ |
        hq | hq
      · have hmem : word ∈ inner ++ closer :: bs := by simp [he]
        obtain ⟨hword, hsuffix, hloose⟩ := hw word (List.mem_cons_of_mem _ hmem) hg
        obtain ⟨test, yes, others, hlevel, htoken, hquantifiers⟩ :=
          hi.exists_test he hc hparen hword hsuffix hloose hclose hb
        obtain rfl : opening = .conditional := by simpa [hconditional, Token.opening?] using ho.symm
        have hne' : test.quantifiers ≠ [] := by simp [hquantifiers, close.quantifiers_eq, hne]
        have := Opening.quantifiers_lt hn hlevel htoken hg hne'
        omega
      · have := ihi hri (fun b hb => hw b (by simp [hb])) hq
        omega
      · exact .inr (ih hrs (fun b hb => hw b (by simp [hb])) hq)
    simp only [List.flatMap_cons, List.flatMap_append, quantifiersAll_append, List.cons_append,
      quantifiersAll_quantify, Block.quantifiersAll_loose, List.append_nil,
      List.length_append] at hlost hrest ⊢
    omega

end Assembled

/-- The quantifiers of a pattern that has not to change are those of its blocks, in the same order;
they are all there unless the test of a group is repeated. -/
theorem quantifiers_read {style : Style} {pattern : Text} {stream : Stream} {read : Pattern}
    (hs : blocksOf pattern = .ok stream) (hp : Pattern.read style pattern = .ok read)
    (hunchanged : read.changed = false) :
    read.root.quantifiers.Sublist (stream.blocks.flatMap Block.quantifiers) ∧
      (read.root.quantifiers = stream.blocks.flatMap Block.quantifiers ↔
        ¬ HasQuantifiedGroupTest read.groups stream.blocks) := by
  obtain ⟨⟨tree, groups⟩, htree, hp⟩ := bind_eq_ok.1 hp
  cases hp
  obtain ⟨stream', branches, hs', rfl, hA, rfl⟩ := exists_assembles_of_readTree htree
  obtain rfl : stream = stream' := Except.ok.inj (hs.symm.trans hs')
  have hr := blocksOf_regular hs
  have hroot : ((bodyNode branches).portable style).1.quantifiers =
      branches.flatMap quantifiersAll := by
    rw [portable_of_unchanged hunchanged, quantifiers_bodyNode]
  rw [hroot]
  refine ⟨hA.quantifiers_sublist hr, fun he hq => ?_, ?_⟩
  · have hlost := hA.quantifiers_lost hr (fun b hb hg => next_word_of_blocksOf hs hb
      (isWord_of_resolve (names_isWord hs) hg)) hq
    rw [he] at hlost
    exact Nat.lt_irrefl _ hlost
  · exact hA.quantifiers_eq hr (resolve_nil (names_ne_nil hs))

def repeatedPattern : Text := "(a{0,1})+?\\1b*(?((?:c)?)d|e){2,2}".toList

theorem quantifiers_read_repeatedPattern :
    ∃ stream read, blocksOf repeatedPattern = .ok stream ∧
      Pattern.read .annotate repeatedPattern = .ok read ∧ read.changed = false ∧
      ¬ HasQuantifiedGroupTest read.groups stream.blocks ∧
      read.root.quantifiers = ["?", "+?", "*", "?", "\x7b2\x7d"].map String.toList := by
  have hblocks : ((blocksOf repeatedPattern).toOption.map fun stream =>
      stream.blocks.flatMap Block.quantifiers) =
      some (["?", "+?", "*", "?", "\x7b2\x7d"].map String.toList) := by decide +kernel
  have hread : (Pattern.read .annotate repeatedPattern).toOption.map
      (fun read => (read.root.quantifiers, read.changed)) =
      some (["?", "+?", "*", "?", "\x7b2\x7d"].map String.toList, false) := by decide +kernel
  cases hs : blocksOf repeatedPattern with
  | error e => rw [hs] at hblocks; cases hblocks
  | ok stream =>
    cases hp : Pattern.read .annotate repeatedPattern with
    | error e => rw [hp] at hread; cases hread
    | ok read =>
      rw [hs] at hblocks
      rw [hp] at hread
      obtain ⟨hquantifiers, hunchanged⟩ := Prod.mk.inj (Option.some.inj hread)
      have hall : read.root.quantifiers = stream.blocks.flatMap Block.quantifiers :=
        hquantifiers.trans (Option.some.inj hblocks).symm
      exact ⟨stream, read, rfl, rfl, hunchanged,
        (quantifiers_read hs hp hunchanged).2.1 hall, hquantifiers⟩

/-- The repeated test of a group: nothing of its quantifier is left in the tree. -/
def repeatedTestPattern : Text := "(a)(?(1)*b|c)".toList

theorem repeatedTestPattern_loses :
    (Pattern.read .annotate repeatedTestPattern).toOption.map
        (fun read => (read.changed, read.root.quantifiers)) = some (false, []) ∧
      (blocksOf repeatedTestPattern).toOption.map
        (fun stream => stream.blocks.flatMap Block.quantifiers) = some [['*']] := by
  decide +kernel

end RegexAnatomy
