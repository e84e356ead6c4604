import RegexAnatomy.Proofs.Canonical.Stable

/-! A portable form is its own portable form, unless the changes reach further than
meant: a group around options that are the test ends them with the test, and a count
that canonical spelling leaves out may have kept two tokens apart. -/

namespace RegexAnatomy

section Patterns

variable {pattern text : Text} {stream : Stream} {tree : Node} {groups : GroupTable}

theorem portableForm_of_readTree (h : readTree pattern = .ok (tree, groups)) (style : Style) :
    portableForm style pattern =
      .ok (if (tree.portable style).2 then tree.portableText else pattern) := by
  have hrender : (tree.portable style).1.render = tree.portableText := by
    cases style with
    | annotate => rfl
    | restructure => exact (portable_render_eq (unrecorded_of_readTree h)).symm
  rw [portableForm, Pattern.read, h, ← hrender]
  rfl

/-- A portable form is the portable form of itself, in either style. If a conditional had to change,
this holds provided that no conditional tests `n` or `x` alone, which a group around the test ends,
and that canonical spelling lets no token run into what is behind it and no test become the name of
a group. -/
theorem portableForm_portableForm {style : Style} (hs : blocksOf pattern = .ok stream)
    (htree : readTree pattern = .ok (tree, groups)) (hp : portableForm style pattern = .ok text)
    (hstays : (tree.portable style).2 = true → staysApart [] stream.blocks = true ∧
      ∀ n ∈ tree.subtrees, n.testsMode = false ∧ n.testGlues groups = false) (style' : Style) :
    portableForm style' text = .ok text := by
  have hform := portableForm_of_readTree htree
  rw [hform] at hp
  cases hchanged : (tree.portable style).2 with
  | false =>
    rw [hchanged, if_neg (by decide)] at hp
    cases hp
    rw [hform, portable_snd_of_style tree style' style, hchanged, if_neg (by decide)]
  | true =>
    rw [hchanged, if_pos rfl] at hp
    cases hp
    obtain ⟨hapart, hnodes⟩ := hstays hchanged
    obtain ⟨again, -, -, -, hread⟩ := exists_read_portableText hs htree hapart
      (fun n hn => (hnodes n hn).2) (fun n hn => (hnodes n hn).1)
    have hportable : (again.reread.portable style').2 = false :=
      (portable_retested_snd style' _).trans (portable_restructured_snd again)
    rw [portableForm_of_readTree hread, hportable]
    rfl

def leakingCountsPattern : Text :=
  "(a{1}b)(?(?i-s)c|(?(?i:c){1}(?x)d {1}e|f{1}g))\\1{1}".toList

theorem portableForm_portableForm_leakingCountsPattern :
    ∃ stream tree groups text, blocksOf leakingCountsPattern = .ok stream ∧
      readTree leakingCountsPattern = .ok (tree, groups) ∧
      portableForm .restructure leakingCountsPattern = .ok text ∧
      (tree.portable .restructure).2 = true ∧ staysApart [] stream.blocks = true ∧
      (∀ n ∈ tree.subtrees, n.testsMode = false ∧ n.testGlues groups = false) ∧
      text = "(ab)(?(?:(?i-s))c|(?(?:(?i:c))(?:(?x)d e)|(?:(?x)fg)))\\1".toList ∧
      portableForm .annotate text = .ok text := by
  have hblocks : (blocksOf leakingCountsPattern).toOption.map
      (fun stream => staysApart [] stream.blocks) = some true := by decide +kernel
  have htree : ((readTree leakingCountsPattern).toOption.map fun found =>
      ((found.1.portable .restructure).2, decide (∀ n ∈ found.1.subtrees,
        n.testsMode = false ∧ n.testGlues found.2 = false))) = some (true, true) := by
    decide +kernel
  have hform : (portableForm .restructure leakingCountsPattern).toOption =
      some "(ab)(?(?:(?i-s))c|(?(?:(?i:c))(?:(?x)d e)|(?:(?x)fg)))\\1".toList := by decide +kernel
  cases hs : blocksOf leakingCountsPattern with
  | error e => rw [hs] at hblocks; cases hblocks
  | ok stream =>
    cases h : readTree leakingCountsPattern with
    | error e => rw [h] at htree; cases htree
    | ok found =>
      cases hp : portableForm .restructure leakingCountsPattern with
      | error e => rw [hp] at hform; cases hform
      | ok text =>
        obtain ⟨tree, groups⟩ := found
        rw [hs] at hblocks
        rw [h] at htree
        rw [hp] at hform
        have hapart : staysApart [] stream.blocks = true := Option.some.inj hblocks
        obtain ⟨hchanged, hnodes⟩ := Prod.mk.inj (Option.some.inj htree)
        have hnodes : ∀ n ∈ tree.subtrees, n.testsMode = false ∧ n.testGlues groups = false :=
          of_decide_eq_true hnodes
        have hagain := portableForm_portableForm hs h hp (fun _ => ⟨hapart, hnodes⟩) .annotate
        exact ⟨stream, tree, groups, text, rfl, rfl, rfl, hchanged, hapart, hnodes,
          Option.some.inj hform, hagain⟩

end Patterns

/-- The options that are the test let a capture be counted in the first branch, and in the portable
form they end with the test. -/
def countingTestPattern : Text := "(?n)(?(?-n)(a)|b)\\1".toList

theorem countingTestPattern_rejected :
    (portableForm .annotate countingTestPattern).toOption =
      some "(?n)(?(?:(?-n))(a)|b)\\1".toList ∧
    (portableForm .annotate "(?n)(?(?:(?-n))(a)|b)\\1".toList).toOption = none := by
  decide +kernel

end RegexAnatomy
