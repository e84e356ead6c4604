import RegexAnatomy.Proofs.Assembly.GroupTest
import RegexAnatomy.Proofs.Block.Whole
import RegexAnatomy.Proofs.Portable.Plan

/-! A pattern that is read and has not to change is written back block by block,
each with its quantifier in canonical spelling. One thing can get lost: a
quantifier on the test of a conditional when the test names a group, since only
the group is kept of such a test. -/

namespace RegexAnatomy

/-- A conditional whose test is the number or name of a group in parentheses, right behind which
stands a quantifier. -/
def HasQuantifiedGroupTest (g : GroupTable) (bs : List Block) : Prop :=
  ∃ conditional paren word close, [conditional, paren, word, close] <:+: bs ∧
    conditional.token = .openConditional ∧ (∃ capture, paren.token = .openParen capture) ∧
    (g.resolve word.canonicalText).isSome ∧ close.token = .close ∧
    close.suffix.before = [] ∧ close.suffix.quantifier ≠ []

section Render

variable {g : GroupTable}

theorem HasQuantifiedGroupTest.mono {bs bs' : List Block} (h : HasQuantifiedGroupTest g bs)
    (hi : bs <:+: bs') : HasQuantifiedGroupTest g bs' := by
  obtain ⟨conditional, paren, word, close, hin, hrest⟩ := h
  exact ⟨conditional, paren, word, close, hin.trans hi, hrest⟩

/-- The branches that are put together from blocks are written as the blocks are. -/
theorem Assembles.render {bs : List Block} {branches : List (List Node)}
    (h : Assembles g bs branches) (hr : ∀ b ∈ bs, b.Regular) (h0 : g.resolve [] = none)
    (hq : ¬ HasQuantifiedGroupTest g bs) :
    branchesText branches = bs.flatMap Block.canonicalText := by
  induction h with
  | nil => rfl
  | @leaf b nodes bs branch branches hb h ih =>
    obtain ⟨hbr, hbs⟩ := List.forall_mem_cons.1 hr
    rw [branchesText_append, hb.render hbr, List.flatMap_cons,
      ih hbs fun hm => hq (hm.mono (List.suffix_cons b bs).isInfix)]
  | @bar b bs branches hb h ih =>
    obtain ⟨hbr, hbs⟩ := List.forall_mem_cons.1 hr
    rw [branchesText_bar h.ne_nil, List.flatMap_cons,
      ih hbs fun hm => hq (hm.mono (List.suffix_cons b bs).isInfix),
      hbr.canonicalText_eq (by simp [hb, Token.StandsAlone]), hb]
    rfl
  | @group opener closer opening inner bs level node branch branches ho hi hc hn h ihi ih =>
    have hro : opener.Regular := hr opener (by simp)
    have hri : ∀ b ∈ inner, b.Regular := fun b hb => hr b (by simp [hb])
    have ihi := ihi hri fun hm => hq (hm.mono ⟨[opener], closer :: bs, by simp⟩)
    have ih := ih (fun b hb => hr b (by simp [hb])) fun hm =>
      hq (hm.mono ⟨opener :: inner ++ [closer], [], by simp⟩)
    have halone : opener.token.StandsAlone := Token.standsAlone_of_opening ho
    have hnode : node.render = opener.token.text ++ branchesText level.branches ++ [')'] := by
      refine Opening.render_node ho hn ?_
      rintro rfl test yes branches token hlevel htoken hg
      rw [hlevel] at hi
      rcases hi.render_groupTest hri htoken hg h0 with htest | ⟨paren, word, close, tail, rfl, ht⟩
      · exact htest
      · refine absurd ⟨opener, paren, word, close, ⟨[], tail ++ closer :: bs, by simp⟩, ?_, ht⟩ hq
        cases ht : opener.token <;> simp_all [Token.opening?]
    rw [branchesText_append, renderAll_append, renderAll_quantify, hnode, ih, ihi]
    have hclose := closer.render_suffix
    rw [hc] at hclose
    simp [← hclose, hro.canonicalText_eq halone, Token.text]

end Render

/-- A pattern that has not to change is written back as its blocks, each with its quantifier in
canonical spelling. -/
theorem render_read {style : Style} {pattern : Text} {stream : Stream} {read : Pattern}
    (hs : blocksOf pattern = .ok stream) (hp : Pattern.read style pattern = .ok read)
    (hunchanged : read.changed = false)
    (hq : ¬ HasQuantifiedGroupTest read.groups stream.blocks) :
    read.root.render = stream.blocks.flatMap Block.canonicalText ∧
      ((∀ b ∈ stream.blocks, ∀ r ∈ b.repetition, r.IsCanonical) → read.root.render = pattern) := by
  obtain ⟨⟨tree, groups⟩, htree, hp⟩ := bind_eq_ok.1 hp
  cases hp
  obtain ⟨stream', branches, hs', rfl, hA, rfl⟩ := exists_assembles_of_readTree htree
  obtain rfl : stream = stream' := Except.ok.inj (hs.symm.trans hs')
  have hroot : ((bodyNode branches).portable style).1.render =
      stream.blocks.flatMap Block.canonicalText := by
    rw [portable_of_unchanged hunchanged, render_bodyNode]
    exact hA.render (blocksOf_regular hs) (resolve_nil (names_ne_nil hs)) hq
  refine ⟨hroot, fun hcanonical => hroot.trans ?_⟩
  rw [← text_blocksOf hs, List.flatMap_def, List.flatMap_def,
    List.map_congr_left fun b hb => Block.canonicalText_eq (hcanonical b hb)]

theorem not_hasQuantifiedGroupTest {g : GroupTable} {bs : List Block}
    (h : ∀ b ∈ bs, b.token = .close → b.suffix.quantifier = []) :
    ¬ HasQuantifiedGroupTest g bs := by
  rintro ⟨conditional, paren, word, close, hin, -, -, -, hclose, -, hq⟩
  exact hq (h close (hin.subset (by simp)) hclose)

/-- Comments and blanks all around quantifiers, one of which has a shorter spelling and one of
which says nothing. -/
def commentedPattern : Text := "(?x)(?<n>a (?#c){0,1} ? )|(?(n)b{1}|c) d".toList

theorem render_read_commentedPattern :
    ∃ stream read, blocksOf commentedPattern = .ok stream ∧
      Pattern.read .annotate commentedPattern = .ok read ∧ read.changed = false ∧
      ¬ HasQuantifiedGroupTest read.groups stream.blocks ∧
      read.root.render = "(?x)(?<n>a (?#c)? ? )|(?(n)b|c) d".toList := by
  have hblocks : ((blocksOf commentedPattern).toOption.map fun stream =>
      (stream.blocks.flatMap Block.canonicalText, stream.blocks.all fun b =>
        b.token ≠ .close || b.suffix.quantifier = [])) =
      some ("(?x)(?<n>a (?#c)? ? )|(?(n)b|c) d".toList, true) := by decide +kernel
  have hread : (Pattern.read .annotate commentedPattern).toOption.map (·.changed) =
      some false := by decide +kernel
  cases hs : blocksOf commentedPattern with
  | error e => rw [hs] at hblocks; cases hblocks
  | ok stream =>
    cases hp : Pattern.read .annotate commentedPattern with
    | error e => rw [hp] at hread; cases hread
    | ok read =>
      rw [hs] at hblocks
      rw [hp] at hread
      obtain ⟨htext, hall⟩ := Prod.mk.inj (Option.some.inj hblocks)
      have hq : ¬ HasQuantifiedGroupTest read.groups stream.blocks :=
        not_hasQuantifiedGroupTest (by simpa [or_iff_not_imp_left] using hall)
      have hunchanged : read.changed = false := Option.some.inj hread
      exact ⟨stream, read, rfl, rfl, hunchanged, hq,
        (render_read hs hp hunchanged hq).1.trans htext⟩

end RegexAnatomy
