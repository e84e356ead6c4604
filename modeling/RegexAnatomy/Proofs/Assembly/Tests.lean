import RegexAnatomy.Proofs.Options.Replay
import RegexAnatomy.Proofs.Reading.Word

/-! Tests that are written as the name of a group. Whether a conditional tests a group
is decided on the node of its test, when the blocks of the test have been put
together and their quantifiers are spelled canonically; what has been a literal in
plain parentheses is a single leaf in them then. Here it is told from the blocks
which tests become that. -/

namespace RegexAnatomy

/-- Trivia stand between the token and a quantifier that canonical spelling leaves. -/
def Block.repeatsSpaced (b : Block) : Bool :=
  !b.suffix.before.isEmpty && !b.suffix.quantifier.isEmpty

def Block.bareLiteral? (b : Block) : Option Text :=
  match b.token with
  | .literal text => if b.items = [] ∧ b.suffix.quantifier = [] then some text else none
  | _ => none

/-- The text of the test that the blocks start with, where it is a literal in plain parentheses.
Trivia with a quantifier behind them make the parentheses a part of what is repeated. -/
def testLiteral? : List Block → Option Text
  | paren :: word :: close :: _ =>
    match paren.token, close.token with
    | .openParen _, .close => if close.repeatsSpaced then none else word.bareLiteral?
    | _, _ => none
  | _ => none

section Literal

variable {g : GroupTable} {b : Block} {bs : List Block} {branches : List (List Node)}

theorem testLiteral?_eq_some {text : Text} : testLiteral? bs = some text ↔
    ∃ paren word close more capture, bs = paren :: word :: close :: more ∧
      paren.token = .openParen capture ∧ close.token = .close ∧ close.repeatsSpaced = false ∧
      word.bareLiteral? = some text := by
  constructor
  · intro h
    unfold testLiteral? at h
    split at h
    next paren word close more =>
      split at h
      next capture hparen hclose =>
        split at h
        · cases h
        next hspaced =>
          exact ⟨paren, word, close, more, capture, rfl, hparen, hclose, by simpa using hspaced, h⟩
      next => cases h
    next => cases h
  · rintro ⟨paren, word, close, more, capture, rfl, hparen, hclose, hspaced, hword⟩
    simpa [testLiteral?, hparen, hclose, hspaced] using hword

theorem Repetition.suffix_eq_empty {r : Repetition} :
    r.suffix = {} ↔ r.items = [] ∧ r.suffix.quantifier = [] := by
  have hbefore := r.suffix_before
  constructor
  · intro h
    have hquantifier : r.suffix.quantifier = [] := by rw [h]
    have hnone : r.before = [] := by
      rw [h] at hbefore
      simpa using hbefore.symm
    have hafter : r.suffix.after = [] := by rw [h]
    refine ⟨?_, hquantifier⟩
    unfold Repetition.suffix at hquantifier hafter
    unfold Repetition.items
    dsimp only at hquantifier hafter
    cases hmark : r.lazyMark with
    | none => simp [hnone]
    | some items =>
      cases items with
      | nil => simp [hnone]
      | cons item items =>
        -- a lazy mark that is left would be a quantifier, so its trivia would follow
        rw [hmark] at hquantifier hafter
        dsimp only at hquantifier hafter
        split at hafter
        next hlast => rw [if_pos hlast] at hquantifier; simp at hquantifier
        next => simp at hafter
  · rintro ⟨hitems, hquantifier⟩
    obtain ⟨hnone, hmark⟩ := List.append_eq_nil_iff.1 hitems
    have hafter : r.suffix.after = [] := by
      refine List.eq_nil_iff_forall_not_mem.2 fun n hn => ?_
      obtain ⟨item, hitem, -⟩ := r.mem_items_of_mem_after hn
      rw [hitems] at hitem
      cases hitem
    rw [hnone] at hbefore
    cases hs : r.suffix
    simp_all

theorem bareLiteral?_eq_some {text : Text} : b.bareLiteral? = some text ↔
    b.token = .literal text ∧ b.suffix = {} ∧ b.loose = [] := by
  have hplain : (b.items = [] ∧ b.suffix.quantifier = []) ↔ b.suffix = {} ∧ b.loose = [] := by
    cases hr : b.repetition with
    | none => simp [Block.items, Block.suffix, Block.loose, hr]
    | some r =>
      have hs : b.suffix = r.suffix := by simp [Block.suffix, hr]
      have hi : b.items = r.items ++ b.trivia := by simp [Block.items, hr]
      rw [Block.loose, hs, hi, List.append_eq_nil_iff, List.append_eq_nil_iff]
      constructor
      · rintro ⟨⟨hitems, htrivia⟩, hquantifier⟩
        have hempty := Repetition.suffix_eq_empty.2 ⟨hitems, hquantifier⟩
        exact ⟨hempty, by rw [hempty], by simp [htrivia]⟩
      · rintro ⟨hempty, -, htrivia⟩
        obtain ⟨hitems, hquantifier⟩ := Repetition.suffix_eq_empty.1 hempty
        exact ⟨⟨hitems, by simpa using htrivia⟩, hquantifier⟩
  unfold Block.bareLiteral?
  split
  next literal ht =>
    rw [ht, ← hplain]
    by_cases hbare : b.items = [] ∧ b.suffix.quantifier = []
    · simp [hbare]
    · simp [hbare]
  next hne =>
    constructor
    · intro h
      cases h
    · intro h
      exact absurd h.1 (hne text)

theorem Assembles.head_ne_close {b : Block} (h : Assembles g (b :: bs) branches) :
    b.token ≠ .close := by
  generalize hbs : b :: bs = blocks at h
  cases h with
  | nil => cases hbs
  | leaf hb => cases hbs; exact hb.token_ne.2
  | bar hb => cases hbs; simp [hb]
  | group ho =>
    cases hbs
    exact Token.ne_close_of_opening ho

theorem Assembles.second_ne_close {b c : Block} {text : Text}
    (h : Assembles g (b :: c :: bs) branches) (hb : b.token = .literal text) :
    c.token ≠ .close := by
  generalize hbs : b :: c :: bs = blocks at h
  cases h with
  | nil => cases hbs
  | leaf _ h => cases hbs; exact h.head_ne_close
  | bar ht => cases hbs; rw [hb] at ht; cases ht
  | group ho =>
    rw [List.cons_append] at hbs
    obtain ⟨rfl, -⟩ := List.cons.inj hbs
    rw [hb] at ho
    cases ho

theorem Assembles.eq_of_literal {b : Block} {text : Text} (h : Assembles g [b] branches)
    (hb : b.token = .literal text) (hs : b.suffix = {}) (hl : b.loose = []) :
    branches = [[.literal text]] := by
  generalize hbs : [b] = blocks at h
  cases h with
  | nil => cases hbs
  | bar ht => cases hbs; rw [hb] at ht; cases ht
  | group => simp at hbs
  | leaf hy h =>
    obtain ⟨rfl, rfl⟩ := List.cons.inj hbs
    cases h
    cases hy with
    | atom ha =>
      obtain rfl : Node.literal text = _ := by simpa [hb, Token.atom?] using ha
      simp [hs, hl, quantify, Node.quantified]
    | layout h | options h | reference h | escape h => rw [hb] at h; cases h

/-- A literal in plain parentheses is put together as a group that holds it alone. -/
theorem Assembles.eq_literalTest {paren word close closer : Block} {after tail : List Block}
    {capture : Option Nat} {text : Text} (h : Assembles g bs branches)
    (hbs : bs ++ closer :: after = paren :: word :: close :: tail) (hcloser : closer.token = .close)
    (hparen : paren.token = .openParen capture) (hword : word.token = .literal text)
    (hsuffix : word.suffix = {}) (hloose : word.loose = []) (hclose : close.token = .close) :
    ∃ yes others, branches = (quantify (.sequence [.literal text] [] (.bracket capture) false)
      close.suffix ++ yes) :: others := by
  cases h with
  | nil =>
    obtain ⟨rfl, -⟩ := List.cons.inj hbs
    rw [hparen] at hcloser
    cases hcloser
  | leaf hb =>
    obtain ⟨rfl, -⟩ := List.cons.inj hbs
    have hno := hb.token_ne.1
    rw [hparen] at hno
    cases hno
  | bar hb =>
    obtain ⟨rfl, -⟩ := List.cons.inj hbs
    rw [hparen] at hb
    cases hb
  | @group opener closer' opening inner bs level node branch branches ho hi hc hn h =>
    simp only [List.cons_append, List.append_assoc, List.cons.injEq] at hbs
    obtain ⟨rfl, hbs⟩ := hbs
    rw [hparen] at ho
    obtain rfl : Opening.bracket capture = opening := Option.some.inj ho
    -- the parentheses hold the literal and nothing else
    have hinner : inner = [word] ∧ closer' = close := by
      rcases inner with - | ⟨first, - | ⟨second, inner⟩⟩
      · obtain ⟨rfl, -⟩ := List.cons.inj hbs
        rw [hword] at hc
        cases hc
      · simp only [List.cons_append, List.nil_append, List.cons.injEq] at hbs
        exact ⟨by rw [hbs.1], hbs.2.1⟩
      · simp only [List.cons_append, List.cons.injEq] at hbs
        obtain ⟨rfl, rfl, -⟩ := hbs
        exact absurd hclose (hi.second_ne_close hword)
    obtain ⟨rfl, rfl⟩ := hinner
    have hlevel := hi.eq_of_literal hword hsuffix hloose
    rw [Opening.node, hlevel] at hn
    cases hn
    exact ⟨_, _, by rw [List.append_assoc]; rfl⟩

/-- What is repeated behind trivia is no test that could name a group. -/
theorem Node.IsGroup.testToken_quantify {node test : Node} {more : List Node} (h : node.IsGroup)
    (hq : quantify node b.suffix = test :: more) :
    testToken test = if b.repeatsSpaced then none else testToken node := by
  unfold quantify at hq
  split at hq
  next hbefore =>
    cases hq
    simp [Block.repeatsSpaced, hbefore, testToken_quantified h]
  next hbefore =>
    split at hq
    next hquantifier =>
      cases hq
      simp [Block.repeatsSpaced, hquantifier]
    next hquantifier =>
      cases hq
      simp [Block.repeatsSpaced, hbefore, hquantifier, testToken]

/-- A leaf that a block leaves alone in the tree is a literal without a tail, if it starts with
literal text. -/
theorem Block.Yields.bareLiteral? {nodes : List Node} {text token : Text} {kind : AtomKind}
    {isReference : Option Bool} (h : b.Yields g nodes)
    (hn : nodes ++ b.loose = [.atom token kind isReference]) (ht : b.token = .literal text) :
    b.bareLiteral? = some token := by
  rw [h.eq_of_literal ht] at hn
  obtain ⟨n, ns, hq⟩ := List.exists_cons_of_ne_nil (quantify_ne_nil (.literal text) b.suffix)
  rw [hq, List.cons_append] at hn
  obtain ⟨rfl, hrest⟩ := List.cons.inj hn
  obtain ⟨rfl, hloose⟩ := List.append_eq_nil_iff.1 hrest
  have hafter : b.suffix.after = [] := (List.append_eq_nil_iff.1 hloose).1
  -- a quantifier, or trivia in front of where it was, would leave another node
  have hplain : b.suffix.before = [] ∧ b.suffix.quantifier = [] ∧ token = text := by
    unfold quantify at hq
    split at hq
    next hbefore =>
      unfold Node.quantified at hq
      split at hq
      next hquantifier =>
        cases hq
        exact ⟨hbefore, hquantifier, rfl⟩
      next => cases hq
    next hbefore =>
      split at hq
      next => exact absurd (List.cons.inj hq).2 hbefore
      next => cases hq
  obtain ⟨hbefore, hquantifier, rfl⟩ := hplain
  have hsuffix : b.suffix = {} := by
    cases hs : b.suffix
    simp_all
  exact bareLiteral?_eq_some.2 ⟨ht, hsuffix, hloose⟩

/-- What is read as a test that may name a group is written as one. -/
theorem Assembles.testLiteral?_of_testToken {inner : List Block} {test : Node} {yes : List Node}
    {others : List (List Node)} {token : Text} (h : Assembles g inner ((test :: yes) :: others))
    (hr : ∀ b ∈ inner, b.Regular) (ht : testToken test = some token) (hw : StartsWord token)
    (hword : ∀ b ∈ inner, StartsWord b.canonicalText → ∃ text, b.token = .literal text)
    (rest : List Block) : testLiteral? (inner ++ rest) = some token := by
  generalize hbr : (test :: yes) :: others = found at h
  cases h with
  | nil => cases hbr
  | bar => cases hbr
  | @leaf b nodes bs branch _ hb h =>
    obtain ⟨hbranch, rfl⟩ := List.cons.inj hbr
    have hparentheses : test.HasParentheses := by
      unfold testToken at ht
      split at ht
      · exact fun hbare => nomatch hbare
      · cases ht
    obtain ⟨n, ns, hnodes⟩ := List.exists_cons_of_ne_nil (hb.ne_nil (hr b (by simp)))
    rw [hnodes, List.cons_append] at hbranch
    obtain ⟨rfl, -⟩ := List.cons.inj hbranch
    have hno := hb.no_parentheses (hr b (by simp)) test (by rw [hnodes]; exact List.mem_cons_self)
    exact absurd hparentheses hno
  | @group opener closer opening inner bs level node branch branches ho hi hc hn h =>
    obtain ⟨hbranch, rfl⟩ := List.cons.inj hbr
    obtain ⟨n, ns, hq⟩ := List.exists_cons_of_ne_nil (quantify_ne_nil node closer.suffix)
    rw [hq, List.append_assoc, List.cons_append] at hbranch
    obtain ⟨rfl, -⟩ := List.cons.inj hbranch
    rw [(Opening.isGroup_node hn).testToken_quantify hq] at ht
    split at ht
    · cases ht
    next hspaced =>
      unfold testToken at ht
      split at ht <;> cases ht
      next kind isReference quantifier capture isTest =>
      obtain ⟨rfl, rfl, hwrapped⟩ := Opening.node_eq_bracket hn
      have hri : ∀ b ∈ inner, b.Regular := fun b hb => hr b (by simp [hb])
      rcases branches_eq_of_wrapped (hi.isUnit hri) hwrapped with hlevel | rfl
      · rw [hlevel] at hi
        obtain ⟨word, nodes, rfl, hy, hnodes⟩ := hi.exists_eq_singleton hri
        have htoken : word.canonicalText = token := by
          rw [← hy.render (hri word (by simp)), hnodes]
          simp [Node.render]
        obtain ⟨text, hliteral⟩ := hword word (by simp) (htoken ▸ hw)
        exact testLiteral?_eq_some.2 ⟨opener, word, closer, bs ++ rest, capture, by simp,
          Token.eq_openParen ho, hc, by simpa using hspaced, hy.bareLiteral? hnodes hliteral⟩
      · obtain ⟨c, hc, -⟩ := hw
        cases hc

/-- What is written as a test that may name a group is read as one. -/
theorem Assembles.testToken_of_testLiteral? {closer : Block} {after : List Block} {text : Text}
    (h : Assembles g bs branches) (hcloser : closer.token = .close)
    (ht : testLiteral? (bs ++ closer :: after) = some text) :
    ∃ test yes others, branches = (test :: yes) :: others ∧ testToken test = some text := by
  obtain ⟨paren, word, close, more, capture, hbs, hparen, hclose, hspaced, hbare⟩ :=
    testLiteral?_eq_some.1 ht
  obtain ⟨hword, hsuffix, hloose⟩ := bareLiteral?_eq_some.1 hbare
  obtain ⟨yes, others, rfl⟩ :=
    h.eq_literalTest hbs hcloser hparen hword hsuffix hloose hclose
  have hgroup : (Node.sequence [.literal text] [] (.bracket capture) false).IsGroup :=
    .wrapped (by simp)
  obtain ⟨test, rest, hq⟩ := List.exists_cons_of_ne_nil (quantify_ne_nil _ close.suffix)
  refine ⟨test, rest ++ yes, others, by rw [hq]; rfl, ?_⟩
  rw [hgroup.testToken_quantify hq, hspaced]
  rfl

end Literal

/-- The blocks of a pattern tell what becomes a test that may name a group. -/
theorem testToken_iff_testLiteral? {pattern : Text} {stream : Stream} {g : GroupTable}
    {inner after : List Block} {closer : Block} {test : Node} {yes : List Node}
    {others : List (List Node)} {token : Text} (hs : blocksOf pattern = .ok stream)
    (hsub : inner ⊆ stream.blocks) (h : Assembles g inner ((test :: yes) :: others))
    (hc : closer.token = .close) (hw : StartsWord token) :
    testToken test = some token ↔ testLiteral? (inner ++ closer :: after) = some token := by
  constructor
  · intro ht
    exact h.testLiteral?_of_testToken (fun b hb => blocksOf_regular hs b (hsub hb)) ht hw
      (fun b hb => next_literal_of_blocksOf hs (hsub hb)) (closer :: after)
  · intro ht
    obtain ⟨test', yes', others', he, htoken⟩ := h.testToken_of_testLiteral? hc ht
    cases he
    exact htoken

/-- Wherever the blocks of a tree open a group, they go on with the inside of its node and with
what closes it. -/
theorem exists_node_of_ofBlocks {g : GroupTable} {bs before after : List Block} {opener : Block}
    {opening : Opening} {tree : Node} (hr : ∀ b ∈ bs, b.Regular)
    (h : Node.ofBlocks g bs = .ok tree) (hsplit : bs = before ++ opener :: after)
    (ho : opener.token.opening? = some opening) :
    ∃ inner closer rest level node, after = inner ++ closer :: rest ∧
      Assembles g inner level.branches ∧ closer.token = .close ∧
      opening.node g opener.span.start level = .ok node := by
  subst hsplit
  obtain ⟨a, hf, htree⟩ := bind_eq_ok.1 h
  have he : a.enclosures = [] := by
    split at htree
    next he => exact he
    next => cases htree
  rw [List.foldlM_append, bind_eq_ok] at hf
  obtain ⟨a₀, -, hf⟩ := hf
  obtain ⟨a₁, hopen, hf⟩ := pushAll_cons.1 hf
  rw [push_of_opening (hr opener (by simp)) ho] at hopen
  cases hopen
  obtain ⟨inner, rest, branch, branches, a₂, rfl, hA, hE, hrest, hclose⟩ :=
    exists_assembles after (fun b hb => hr b (by simp [hb])) hf he
  cases rest with
  | nil =>
    cases hrest
    rw [hE.enclosures] at he
    cases he
  | cons closer rest =>
    have hc : closer.token = .close := hclose closer rfl
    obtain ⟨a₃, hpush, -⟩ := pushAll_cons.1 hrest
    obtain ⟨e, outer, node, hencl, hn, -⟩ := (push_close_eq_ok hc).1 hpush
    rw [hE.enclosures] at hencl
    cases hencl
    have hbranches : a₂.level.branches = branch :: branches := hE.branches
    exact ⟨inner, closer, rest, a₂.level, node, rfl, hbranches ▸ hA, hc, hn⟩

end RegexAnatomy
