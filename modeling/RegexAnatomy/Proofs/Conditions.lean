import RegexAnatomy.Proofs.Assembly.Frames
import RegexAnatomy.Proofs.Assembly.Labels
import RegexAnatomy.Proofs.Assembly.Tests
import RegexAnatomy.Proofs.Block.Partition
import RegexAnatomy.Proofs.References

/-! What conditionals test. The conditionals of a tree stand in the order in which the
blocks open them, and each tests a group if its blocks go on with the name of one,
alone in plain parentheses. On the text of the pattern this means the same, except
where the name or its parentheses are repeated: a quantifier that canonical spelling
takes away is not seen when the test is looked at, and one behind trivia hides the
parentheses. -/

namespace RegexAnatomy

def Node.tested? : Node → Option (Option GroupId)
  | .conditional (.group id) .. => some (some id)
  | .conditional (.expression _) .. => some none
  | _ => none

def Node.conditions (tree : Node) : List (Option GroupId) := tree.labels Node.tested?

theorem labelling_tested? : Labelling Node.tested? :=
  ⟨fun _ _ => rfl, fun _ _ _ _ => rfl, rfl, rfl, fun _ => rfl, fun _ _ _ _ _ _ => rfl,
    fun _ _ _ _ _ _ => rfl⟩

def conditionalCount (bs : List Block) : Nat := bs.countP fun b => b.token = .openConditional

def writtenConditions (g : GroupTable) : List Block → List (Option GroupId)
  | [] => []
  | b :: bs =>
    if b.token = .openConditional then (testLiteral? bs).bind g.resolve :: writtenConditions g bs
    else writtenConditions g bs

/-- The pattern reads `(?(`, then `t`, then `)` at the byte. -/
def OpensTest (pattern : Text) (start : Nat) (t : Text) : Prop :=
  ∃ before rest, splitAtByte pattern start = some (before, '(' :: '?' :: '(' :: (t ++ ')' :: rest))

/-- A group is tested exactly where the text in the parentheses of the test is one that the table
knows, and then the group is called by that text. -/
structure TestedAsWritten (g : GroupTable) (pattern : Text) (start : Nat)
    (tested : Option GroupId) : Prop where
  named : tested.isSome ↔ ∃ t, OpensTest pattern start t ∧ g.knows t
  token : ∀ id ∈ tested, ∀ t, OpensTest pattern start t → g.knows t → id.token = t

/-- What a table knows is in plain parentheses, and either it has a quantifier, which is gone in
canonical spelling, or the parentheses have one behind trivia. -/
def RepeatsName (g : GroupTable) (bs : List Block) : Prop :=
  ∃ paren word close more capture t, bs = paren :: word :: close :: more ∧
    paren.token = .openParen capture ∧ close.token = .close ∧ word.bareLiteral? = some t ∧
      g.knows t ∧ word.repetition.isSome ≠ close.repeatsSpaced

section Order

variable {g : GroupTable} {b : Block} {bs : List Block}

theorem writtenConditions_of_openConditional (h : b.token = .openConditional) (bs : List Block) :
    writtenConditions g (b :: bs) = (testLiteral? bs).bind g.resolve :: writtenConditions g bs :=
  if_pos h

theorem writtenConditions_of_ne (h : b.token ≠ .openConditional) (bs : List Block) :
    writtenConditions g (b :: bs) = writtenConditions g bs := if_neg h

theorem length_writtenConditions (g : GroupTable) (bs : List Block) :
    (writtenConditions g bs).length = conditionalCount bs := by
  induction bs with
  | nil => rfl
  | cons b bs ih =>
    unfold conditionalCount at ih ⊢
    by_cases hb : b.token = .openConditional
    · simp [writtenConditions_of_openConditional hb, hb, ih]
    · simp [writtenConditions_of_ne hb, hb, ih]

theorem getElem?_writtenConditions (h : b.token = .openConditional) (before after : List Block) :
    (writtenConditions g (before ++ b :: after))[conditionalCount before]? =
      some ((testLiteral? after).bind g.resolve) := by
  induction before with
  | nil => simp [writtenConditions_of_openConditional h, conditionalCount]
  | cons first before ih =>
    unfold conditionalCount at ih ⊢
    by_cases hf : first.token = .openConditional
    · simpa [writtenConditions_of_openConditional hf, hf] using ih
    · simpa [writtenConditions_of_ne hf, hf] using ih

/-- A test of which only the name of a group is kept holds no conditional. -/
theorem conditions_of_testToken {test : Node} {token : Text} (h : testToken test = some token) :
    test.conditions = [] := by
  unfold testToken at h
  split at h
  · rfl
  · cases h

theorem conditions_condition {start : Nat} {test : Node} {condition : Condition}
    {tested : Option GroupId} (h : testCondition g start test = .ok condition)
    (ht : tested = (testToken test).bind g.resolve) :
    condition.labels Node.tested? = tested :: test.conditions := by
  subst ht
  rcases testCondition_eq_ok.1 h with ⟨token, id, htoken, hid, rfl⟩ | ⟨hnone, rfl⟩
  · rw [conditions_of_testToken htoken, htoken]
    simp [Condition.labels, Node.tested?, hid]
  · have hunresolved : (testToken test).bind g.resolve = none := by
      cases htoken : testToken test with
      | none => rfl
      | some token => exact (hnone token htoken).1
    rw [hunresolved, Condition.labels, labels_markTest labelling_tested?]
    rfl

/-- What the node of a group tests, the group itself first if it is a conditional. -/
theorem Opening.conditions_node {opener : Block} {opening : Opening} {start : Nat} {level : Level}
    {node : Node} (ho : opener.token.opening? = some opening)
    (hn : opening.node g start level = .ok node) (hbs : ∀ test yes others,
      level.branches = (test :: yes) :: others →
        (testToken test).bind g.resolve = (testLiteral? bs).bind g.resolve) :
    node.conditions = (if opener.token = .openConditional then
        [(testLiteral? bs).bind g.resolve] else []) ++
      level.branches.flatMap (·.flatMap Node.conditions) := by
  cases opening with
  | bracket capture =>
    cases hn
    rw [Token.eq_openParen ho]
    exact labels_wrapped_bodyNode labelling_tested? (.bracket capture) level.branches
  | group opener' =>
    cases hn
    have hne : opener.token ≠ .openConditional := by
      intro hconditional
      rw [hconditional] at ho
      cases ho
    rw [if_neg hne]
    exact labels_wrapped_bodyNode labelling_tested? _ level.branches
  | conditional =>
    obtain ⟨test, yes, no, condition, hlevel, hcondition, hlabels⟩ :=
      labels_conditional_node labelling_tested? hn
    have htested := conditions_condition hcondition (hbs test yes _ hlevel).symm
    have hnode : node.conditions = condition.labels Node.tested? ++ yes.flatMap Node.conditions ++
        no.toList.flatMap (·.flatMap Node.conditions) := hlabels
    rw [hnode, htested, hlevel, if_pos (Token.eq_openConditional ho)]
    simp

end Order

/-- Both a test and what the blocks tell of it name the same group, or neither names one. -/
theorem resolve_test {pattern : Text} {stream : Stream} {g : GroupTable} {inner : List Block}
    {closer : Block} {test : Node} {yes : List Node} {others : List (List Node)}
    (hs : blocksOf pattern = .ok stream)
    (hg : ∀ token, (g.resolve token).isSome → StartsWord token) (hsub : inner ⊆ stream.blocks)
    (h : Assembles g inner ((test :: yes) :: others)) (hc : closer.token = .close)
    (after : List Block) :
    (testToken test).bind g.resolve =
      (testLiteral? (inner ++ closer :: after)).bind g.resolve := by
  refine Option.ext fun id => ?_
  simp only [Option.bind_eq_some_iff]
  refine exists_congr fun token => and_congr_left fun hid => ?_
  exact testToken_iff_testLiteral? hs hsub h hc (hg token (by rw [hid]; rfl))

/-- What is put together from blocks tests what the blocks tell, in their order. -/
theorem Assembles.conditions {pattern : Text} {stream : Stream} {g : GroupTable} {bs : List Block}
    {branches : List (List Node)} (hs : blocksOf pattern = .ok stream)
    (hg : ∀ token, (g.resolve token).isSome → StartsWord token) (h : Assembles g bs branches)
    (hsub : bs ⊆ stream.blocks) (rest : List Block) :
    writtenConditions g (bs ++ rest) =
      branches.flatMap (·.flatMap Node.conditions) ++ writtenConditions g rest := by
  have loose (b : Block) : b.loose.flatMap Node.conditions = [] := labels_loose labelling_tested? b
  induction h generalizing rest with
  | nil => rfl
  | @leaf b nodes bs branch branches hb h ih =>
    have hne : b.token ≠ .openConditional := by
      intro hconditional
      have hno := hb.token_ne.1
      rw [hconditional] at hno
      cases hno
    have hnodes : nodes.flatMap Node.conditions = [] :=
      labels_yields labelling_tested? (fun _ _ _ => rfl) hb
        (blocksOf_regular hs b (hsub List.mem_cons_self))
    rw [List.cons_append, writtenConditions_of_ne hne, ih fun b hb => hsub (by simp [hb])]
    simp [hnodes, loose]
  | @bar b bs branches hb h ih =>
    have hne : b.token ≠ .openConditional := by
      rw [hb]
      exact fun h => nomatch h
    rw [List.cons_append, writtenConditions_of_ne hne, ih fun b hb => hsub (by simp [hb])]
    rfl
  | @group opener closer opening inner bs level node branch branches ho hi hc hn h ihi ih =>
    have hinner : inner ⊆ stream.blocks := fun b hb => hsub (by simp [hb])
    have hclose : closer.token ≠ .openConditional := by
      rw [hc]
      exact fun h => nomatch h
    have hnode := Opening.conditions_node ho hn fun test yes others hlevel =>
      resolve_test hs hg hinner (hlevel ▸ hi) hc (bs ++ rest)
    have hquantify : (quantify node closer.suffix).flatMap Node.conditions = node.conditions :=
      labels_quantify labelling_tested? node closer
    have hafter : writtenConditions g (closer :: (bs ++ rest)) =
        (branch :: branches).flatMap (·.flatMap Node.conditions) ++ writtenConditions g rest := by
      rw [writtenConditions_of_ne hclose, ih fun b hb => hsub (by simp [hb])]
    have hopener : writtenConditions g (opener :: (inner ++ closer :: (bs ++ rest))) =
        node.conditions ++ writtenConditions g (closer :: (bs ++ rest)) := by
      rw [hnode, List.append_assoc, ← ihi hinner]
      by_cases hconditional : opener.token = .openConditional
      · rw [writtenConditions_of_openConditional hconditional, if_pos hconditional]
        rfl
      · rw [writtenConditions_of_ne hconditional, if_neg hconditional]
        rfl
    rw [List.append_assoc, List.cons_append, List.append_assoc, List.cons_append, hopener, hafter]
    simp [hquantify, loose]

section Written

variable {pattern : Text} {stream : Stream} {g : GroupTable} {s s₁ last : Cursor}
  {b opener : Block} {before after bs : List Block} {t : Text}

/-- The blocks start with a literal in plain parentheses, and nothing stands around it in them. -/
def TestsWord (bs : List Block) (t : Text) : Prop :=
  ∃ paren word close more capture, bs = paren :: word :: close :: more ∧
    paren.token = .openParen capture ∧ close.token = .close ∧ word.token = .literal t ∧
      word.repetition = none ∧ word.trivia = []

theorem Cursor.Cuts.exists_next (h : s.Cuts bs last) (hu : s.unread ≠ [])
    (hlast : last.unread = []) :
    ∃ b rest s₁, bs = b :: rest ∧ s.next = .ok (some (b, s₁)) ∧ s₁.Cuts rest last := by
  cases h with
  | nil => exact absurd hlast hu
  | cons hn hrest => exact ⟨_, _, _, rfl, hn, hrest⟩

theorem Cursor.next_paren {rest : Text} (hn : s.next = .ok (some (b, s₁)))
    (hu : s.unread = '(' :: rest) (hrest : rest.head? ≠ some '?') :
    (∃ capture, b.token = .openParen capture) ∧ s₁.unread = rest := by
  obtain ⟨lead, htoken, hl, hr⟩ := Cursor.next_of_startsToken hn
    (by rw [hu]; exact .of_shut (shut_paren (startsComment_paren hrest)))
  rw [hu, readLead_paren hrest] at hl
  cases hl
  exact ⟨⟨_, htoken.symm⟩, (congrArg (·.2.2) (Except.ok.inj hr)).symm⟩

theorem Cursor.next_of_word {rest : Text} (hn : s.next = .ok (some (b, s₁))) (hw : IsWord t)
    (hu : s.unread = t ++ ')' :: rest) :
    b.token = .literal t ∧ b.repetition = none ∧ b.trivia = [] ∧ s₁.unread = ')' :: rest := by
  have hlead : readLead s.context s.unread = .ok (some ⟨.literal t, ')' :: rest, false⟩) := by
    rw [hu]
    exact readLead_word_append hw (shut_operator (by decide))
  obtain ⟨lead, htoken, hl, hr⟩ := Cursor.next_of_startsToken hn
    (by rw [hu]; exact hw.startsToken_append)
  rw [hlead] at hl
  cases hl
  obtain ⟨hrepetition, htail⟩ := Prod.mk.inj (Except.ok.inj hr)
  obtain ⟨htrivia, hunread⟩ := Prod.mk.inj htail
  exact ⟨htoken.symm, hrepetition.symm, htrivia.symm, hunread.symm⟩

theorem Cursor.next_closing {rest : Text} (hn : s.next = .ok (some (b, s₁)))
    (hu : s.unread = ')' :: rest) : b.token = .close := by
  obtain ⟨lead, htoken, hl, -⟩ := Cursor.next_of_startsToken hn
    (by rw [hu]; exact .of_shut (shut_operator (by decide)))
  rw [hu, readLead] at hl
  split at hl
  · cases hl
    exact htoken.symm
  · cases hl

/-- A word in plain parentheses is cut into three blocks. -/
theorem Cursor.Cuts.testsWord {rest : Text} (h : s.Cuts bs last) (hw : IsWord t)
    (hu : s.unread = '(' :: (t ++ ')' :: rest)) (hlast : last.unread = []) : TestsWord bs t := by
  have hfirst : (t ++ ')' :: rest).head? ≠ some '?' := by
    obtain ⟨c, hc, hword⟩ := hw.startsWord
    rw [List.head?_append, Option.mem_def.1 hc]
    intro he
    cases he
    cases hword
  obtain ⟨paren, bs, s₁, rfl, hn, h⟩ := h.exists_next (by simp [hu]) hlast
  obtain ⟨⟨capture, hparen⟩, hu⟩ := Cursor.next_paren hn hu hfirst
  obtain ⟨word, bs, s₂, rfl, hn, h⟩ := h.exists_next (by simp [hu]) hlast
  obtain ⟨hword, hrepetition, htrivia, hu⟩ := Cursor.next_of_word hn hw hu
  obtain ⟨close, bs, s₃, rfl, hn, -⟩ := h.exists_next (by simp [hu]) hlast
  have hclose := Cursor.next_closing hn hu
  exact ⟨paren, word, close, bs, capture, rfl, hparen, hclose, hword, hrepetition, htrivia⟩

/-- The blocks of a test in plain parentheses that is one word are written as that. -/
theorem TestsWord.exists_text (h : TestsWord bs t) (hr : ∀ b ∈ bs, b.Regular) :
    ∃ rest, bs.flatMap Block.text = '(' :: (t ++ ')' :: rest) := by
  obtain ⟨paren, word, close, more, capture, rfl, hparen, hclose, hword, hrepetition, htrivia⟩ := h
  have hparenText : paren.text = ['('] := by
    rw [(hr paren (by simp)).text_of_standsAlone (by rw [hparen]; trivial), hparen]
    rfl
  have hword : word.text = t := by
    simp [Block.text, hword, hrepetition, htrivia, Token.text, triviaText]
  obtain ⟨tail, hclose⟩ : ∃ tail, close.text = ')' :: tail :=
    ⟨_, by rw [Block.text, hclose, List.append_assoc]; rfl⟩
  exact ⟨tail ++ more.flatMap Block.text, by simp [hparenText, hword, hclose]⟩

/-- Behind the opener of a conditional the cutting goes on where its `(?` ends. -/
theorem exists_cursor_of_openConditional (hs : blocksOf pattern = .ok stream)
    (hsplit : stream.blocks = before ++ opener :: after) (ho : opener.token = .openConditional) :
    ∃ s last : Cursor, s.Cuts after last ∧ last.unread = [] ∧
      splitAtByte pattern opener.span.start =
        some (before.flatMap Block.text, '(' :: '?' :: s.unread) := by
  obtain ⟨last, hc, hlast, -⟩ := blocksOf_eq_ok.1 hs
  rw [hsplit] at hc
  obtain ⟨s₀, hbefore, hc⟩ := Cursor.Cuts.append_iff.1 hc
  cases hc with
  | @cons _ s _ _ _ hn hafter =>
    have hstart : opener.span.start = utf8Length (before.flatMap Block.text) := by
      rw [Cursor.next_span hn, Cursor.spanOf, hbefore.position]
      exact Nat.zero_add _
    have hpattern : before.flatMap Block.text ++ s₀.unread = pattern := hbefore.text
    have hopener : opener.text = ['(', '?'] := by
      rw [(Cursor.next_regular hn).text_of_standsAlone (by rw [ho]; trivial), ho]
      rfl
    have hunread : s₀.unread = '(' :: '?' :: s.unread := by
      rw [← (Cursor.next_text hn).1, hopener]
      rfl
    exact ⟨s, last, hafter, hlast, by rw [hstart, ← hpattern, hunread, splitAtByte_append]⟩

/-- The text of the pattern at the opener of a conditional tells whether one word is tested. -/
theorem opensTest_iff (hs : blocksOf pattern = .ok stream)
    (hsplit : stream.blocks = before ++ opener :: after) (ho : opener.token = .openConditional)
    (hw : IsWord t) : OpensTest pattern opener.span.start t ↔ TestsWord after t := by
  obtain ⟨s, last, hc, hlast, hat⟩ := exists_cursor_of_openConditional hs hsplit ho
  constructor
  · rintro ⟨front, rest, hfront⟩
    have hunread : '(' :: '?' :: s.unread = '(' :: '?' :: '(' :: (t ++ ')' :: rest) :=
      (Prod.mk.inj (Option.some.inj (hat.symm.trans hfront))).2
    exact hc.testsWord hw (List.cons.inj (List.cons.inj hunread).2).2 hlast
  · intro h
    obtain ⟨rest, hrest⟩ := h.exists_text hc.regular
    have htext := hc.text
    rw [hlast, List.append_nil, hrest] at htext
    exact ⟨_, rest, by rw [hat, ← htext]⟩

theorem bareLiteral?_of_no_repetition (h : b.repetition = none) :
    b.bareLiteral? = some t ↔ b.token = .literal t ∧ b.trivia = [] := by
  simp [bareLiteral?_eq_some, Block.suffix, Block.loose, h]

/-- Where no name is repeated, the blocks tell the same as the text. -/
theorem testLiteral?_iff_testsWord (h : ¬ RepeatsName g bs) (ht : g.knows t) :
    testLiteral? bs = some t ↔ TestsWord bs t := by
  have plain {paren word close : Block} {more : List Block} {capture : Option Nat}
      (hbs : bs = paren :: word :: close :: more) (hparen : paren.token = .openParen capture)
      (hclose : close.token = .close) (hbare : word.bareLiteral? = some t) :
      word.repetition.isSome = close.repeatsSpaced :=
    not_not.1 fun hne =>
      h ⟨paren, word, close, more, capture, t, hbs, hparen, hclose, hbare, ht, hne⟩
  constructor
  · intro hliteral
    obtain ⟨paren, word, close, more, capture, hbs, hparen, hclose, hspaced, hbare⟩ :=
      testLiteral?_eq_some.1 hliteral
    have hrepetition : word.repetition = none := by
      simpa [hspaced] using plain hbs hparen hclose hbare
    obtain ⟨hword, htrivia⟩ := (bareLiteral?_of_no_repetition hrepetition).1 hbare
    exact ⟨paren, word, close, more, capture, hbs, hparen, hclose, hword, hrepetition, htrivia⟩
  · rintro ⟨paren, word, close, more, capture, hbs, hparen, hclose, hword, hrepetition, htrivia⟩
    have hbare := (bareLiteral?_of_no_repetition hrepetition).2 ⟨hword, htrivia⟩
    have hspaced := (plain hbs hparen hclose hbare).symm
    rw [hrepetition] at hspaced
    exact testLiteral?_eq_some.2
      ⟨paren, word, close, more, capture, hbs, hparen, hclose, hspaced, hbare⟩

section Tested

variable (hs : blocksOf pattern = .ok stream) (hsplit : stream.blocks = before ++ opener :: after)
  (ho : opener.token = .openConditional) (hg : ∀ token, g.knows token ↔ (g.resolve token).isSome)
  (hw : ∀ token, g.knows token → IsWord token)
include hs hsplit ho hg hw

theorem RepeatsName.not_testedAsWritten (h : RepeatsName g after) :
    ¬ TestedAsWritten g pattern opener.span.start ((testLiteral? after).bind g.resolve) := by
  obtain ⟨paren, word, close, more, capture, t, rfl, hparen, hclose, hbare, hknown, hne⟩ := h
  intro hwritten
  cases hspaced : close.repeatsSpaced with
  | false =>
    -- the test is taken for the name, and the text has a quantifier in it
    have hliteral := testLiteral?_eq_some.2
      ⟨paren, word, close, more, capture, rfl, hparen, hclose, hspaced, hbare⟩
    rw [hliteral] at hwritten
    obtain ⟨t', hopens, hknown'⟩ := hwritten.named.1 ((hg t).1 hknown)
    obtain ⟨_, _, _, _, _, he, -, -, -, hrepetition, -⟩ :=
      (opensTest_iff hs hsplit ho (hw t' hknown')).1 hopens
    cases he
    rw [hrepetition, hspaced] at hne
    exact hne rfl
  | true =>
    -- the text is the name in parentheses, and they are not taken for a test of it
    have hrepetition : word.repetition = none := by simpa [hspaced] using hne
    obtain ⟨hword, htrivia⟩ := (bareLiteral?_of_no_repetition hrepetition).1 hbare
    have hopens := (opensTest_iff hs hsplit ho (hw t hknown)).2
      ⟨paren, word, close, more, capture, rfl, hparen, hclose, hword, hrepetition, htrivia⟩
    have hsome := hwritten.named.2 ⟨t, hopens, hknown⟩
    simp [testLiteral?, hparen, hclose, hspaced] at hsome

theorem testedAsWritten_of_not_repeatsName (h : ¬ RepeatsName g after) :
    TestedAsWritten g pattern opener.span.start ((testLiteral? after).bind g.resolve) := by
  have told {t : Text} (ht : g.knows t) :
      testLiteral? after = some t ↔ OpensTest pattern opener.span.start t :=
    (testLiteral?_iff_testsWord h ht).trans (opensTest_iff hs hsplit ho (hw t ht)).symm
  refine ⟨⟨fun hsome => ?_, ?_⟩, fun id hid t hopens ht => ?_⟩
  · obtain ⟨id, hid⟩ := Option.isSome_iff_exists.1 hsome
    obtain ⟨t, hliteral, hid⟩ := Option.bind_eq_some_iff.1 hid
    have ht : g.knows t := (hg t).2 (by rw [hid]; rfl)
    exact ⟨t, (told ht).1 hliteral, ht⟩
  · rintro ⟨t, hopens, ht⟩
    rw [(told ht).2 hopens]
    exact (hg t).1 ht
  · rw [Option.mem_def, (told ht).2 hopens] at hid
    exact GroupTable.resolve_token hid

/-- What is tested is tested as it is written, but for a repeated name. -/
theorem testedAsWritten_iff :
    TestedAsWritten g pattern opener.span.start ((testLiteral? after).bind g.resolve) ↔
      ¬ RepeatsName g after :=
  ⟨fun hwritten h => h.not_testedAsWritten hs hsplit ho hg hw hwritten,
    testedAsWritten_of_not_repeatsName hs hsplit ho hg hw⟩

end Tested

end Written

/-- The conditionals of a tree are those that the blocks open, in their order. Each tests a group if
its blocks go on with the name of one alone in plain parentheses, and this is what the text of the
pattern says there, unless the name is repeated. -/
theorem conditions_read {style : Style} {pattern : Text} {stream : Stream} {read : Pattern}
    (hs : blocksOf pattern = .ok stream) (hp : Pattern.read style pattern = .ok read) :
    read.root.conditions.length = conditionalCount stream.blocks ∧
      ∀ before opener after, stream.blocks = before ++ opener :: after →
        opener.token = .openConditional →
          ∃ tested, read.root.conditions[conditionalCount before]? = some tested ∧
            tested = (testLiteral? after).bind read.groups.resolve ∧
            (TestedAsWritten read.groups pattern opener.span.start tested ↔
              ¬ RepeatsName read.groups after) := by
  obtain ⟨⟨tree, groups⟩, htree, h⟩ := bind_eq_ok.1 hp
  cases h
  obtain ⟨stream', branches, hs', rfl, hA, rfl⟩ := exists_assembles_of_readTree htree
  obtain rfl : stream = stream' := Except.ok.inj (hs.symm.trans hs')
  have hword : ∀ token,
      ((GroupTable.ofCaptures stream.captures stream.names).resolve token).isSome → IsWord token :=
    fun _ => isWord_of_resolve (names_isWord hs)
  have hknows : ∀ token, (GroupTable.ofCaptures stream.captures stream.names).knows token ↔
      ((GroupTable.ofCaptures stream.captures stream.names).resolve token).isSome := fun _ =>
    ⟨resolve_isSome_of_knows (isGroupNumber_of_mem_names hs), knows_of_resolve⟩
  have hconditions := hA.conditions hs (fun token h => (hword token h).startsWord)
    (List.Subset.refl _) []
  have hroot : ((bodyNode branches).portable style).1.conditions =
      writtenConditions (GroupTable.ofCaptures stream.captures stream.names) stream.blocks := by
    rw [Node.conditions, labels_portable labelling_tested?, labels_bodyNode labelling_tested?]
    rw [List.append_nil, writtenConditions, List.append_nil] at hconditions
    exact hconditions.symm
  rw [hroot]
  refine ⟨length_writtenConditions _ _, fun before opener after hsplit ho => ⟨_, ?_, rfl, ?_⟩⟩
  · rw [hsplit]
    exact getElem?_writtenConditions ho before after
  · exact testedAsWritten_iff hs hsplit ho hknows fun token h => hword token ((hknows token).1 h)

/-- A name, an expression, a name with a quantifier that goes, and a name in parentheses that are
repeated behind a comment. -/
def testingPattern : Text := "(?(n)b|c)(?<n>a)(?(?:1)d)(?(1\x7b1\x7d)e)(?(1)(?#c)*f)".toList

def testedGroups : List (Option GroupId) :=
  [some ⟨['n'], 1, some ['1']⟩, none, some ⟨['1'], 1, some ['n']⟩, none]

theorem conditions_read_testingPattern :
    ∃ stream read opener after, blocksOf testingPattern = .ok stream ∧
      Pattern.read .restructure testingPattern = .ok read ∧ stream.blocks = opener :: after ∧
      conditionalCount stream.blocks = 4 ∧ read.root.conditions = testedGroups ∧
      TestedAsWritten read.groups testingPattern opener.span.start
        (some ⟨['n'], 1, some ['1']⟩) := by
  have hblocks : (blocksOf testingPattern).toOption.map (fun stream =>
      (stream.blocks.take 4).map fun b => (b.token, b.repetition)) =
        some [(.openConditional, none), (.openParen none, none), (.literal ['n'], none),
          (.close, none)] := by
    decide +kernel
  have hread : (Pattern.read .restructure testingPattern).toOption.map
      (fun read => read.root.conditions) = some testedGroups := by decide +kernel
  obtain ⟨stream, hs, hfront⟩ := toOption_map_eq_some.1 hblocks
  obtain ⟨read, hp, hconditions⟩ := toOption_map_eq_some.1 hread
  obtain ⟨hcount, hopeners⟩ := conditions_read hs hp
  rw [hconditions] at hcount hopeners
  cases hb : stream.blocks with
  | nil => rw [hb] at hfront; cases hfront
  | cons opener after =>
    rw [hb] at hfront
    obtain ⟨hopener, hrest⟩ := List.cons.inj hfront
    obtain ⟨tested, htested, -, hwritten⟩ :=
      hopeners [] opener after hb (congrArg Prod.fst hopener)
    obtain rfl : some ⟨['n'], 1, some ['1']⟩ = tested := Option.some.inj htested
    refine ⟨stream, read, opener, after, hs, hp, hb, hb ▸ hcount.symm, hconditions,
      hwritten.2 ?_⟩
    rintro ⟨paren, word, close, more, capture, t, rfl, -, -, -, -, hne⟩
    simp only [List.take_succ_cons, List.map_cons, List.cons.injEq, Prod.mk.injEq] at hrest
    obtain ⟨-, ⟨-, hword⟩, ⟨-, hclose⟩, -⟩ := hrest
    simp [hword, hclose, Block.repeatsSpaced, Block.suffix] at hne

def countedNamePattern : Text := "(a)(?(1\x7b1\x7d)b|c)".toList

def spacedNamePattern : Text := "(a)(?(1)(?#c)*b|c)".toList

def testedWithGroups (pattern : Text) : Option (List (Option GroupId) × GroupTable) :=
  (Pattern.read .annotate pattern).toOption.map fun read => (read.root.conditions, read.groups)

/-- No name stands in the parentheses of the first test, and the name of a group in those of the
second. -/
theorem repeatedName_not_testedAsWritten :
    (testedWithGroups countedNamePattern = some ([some ⟨['1'], 1, none⟩], .ofCaptures 1 []) ∧
      ¬ TestedAsWritten (.ofCaptures 1 []) countedNamePattern 3 (some ⟨['1'], 1, none⟩)) ∧
    testedWithGroups spacedNamePattern = some ([none], .ofCaptures 1 []) ∧
      ¬ TestedAsWritten (.ofCaptures 1 []) spacedNamePattern 3 none := by
  refine ⟨⟨by decide +kernel, fun h => ?_⟩, by decide +kernel, fun h => ?_⟩
  · obtain ⟨t, ⟨before, rest, hat⟩, hknown⟩ := h.named.1 rfl
    obtain ⟨hne, hword⟩ : IsWord t :=
      isWord_of_resolve (by simp) (resolve_isSome_of_knows (by simp) hknown)
    have hsplit : splitAtByte countedNamePattern 3 =
        some ("(a)".toList, '(' :: '?' :: '(' :: '1' :: '{' :: "1\x7d)b|c)".toList) := by decide
    rw [hsplit] at hat
    simp only [Option.some.injEq, Prod.mk.injEq, List.cons.injEq, true_and] at hat
    obtain ⟨-, htext⟩ := hat
    -- the parenthesis would have to stand behind a word
    rcases t with - | ⟨c, - | ⟨d, t⟩⟩
    · exact hne rfl
    · cases htext
    · obtain ⟨rfl, -⟩ := List.cons.inj (List.cons.inj htext).2
      cases hword '{' (by simp)
  · have hopens : OpensTest spacedNamePattern 3 ['1'] :=
      ⟨"(a)".toList, "(?#c)*b|c)".toList, by decide⟩
    cases h.named.2 ⟨['1'], hopens, by decide⟩

end RegexAnatomy
