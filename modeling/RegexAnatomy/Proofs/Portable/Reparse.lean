import RegexAnatomy.Proofs.Portable.Conditional

/-! The portable form of a pattern is read as the changed tree. A group of the
changed tree is read under the front under which the group was read that it comes
from, so the whole is shown by induction on the length of the text that is read. -/

namespace RegexAnatomy

section Below

variable {g : GroupTable}

theorem GroupAt.testsPlainly {f inside : Front} {t a : Text} {lead : Lead} {opening : Opening}
    {level : Level} {node : Node} (h : GroupAt g f t lead opening level inside a node)
    (hne : opening ≠ .conditional) (hp : node.Every (·.testsMode = false)) :
    TestsPlainly level.branches := by
  have hwrapped : ∃ wrapping, node = (bodyNode level.branches).wrapped wrapping := by
    have hn := h.node
    cases opening with
    | bracket => exact ⟨_, (Except.ok.inj hn).symm⟩
    | group => exact ⟨_, (Except.ok.inj hn).symm⟩
    | conditional => exact absurd rfl hne
  obtain ⟨wrapping, rfl⟩ := hwrapped
  exact (every_bodyNode testsMode_eq_false).1
    ((every_wrapped testsMode_eq_false wrapping).1 hp)

theorem GroupsRereadBelow.succ {n : Nat} (hbelow : RereadsBelow g n)
    (hgroups : GroupsRereadBelow g n) : GroupsRereadBelow g (n + 1) := by
  intro f t lead opening level inside a node hlen h hp
  by_cases hne : opening = .conditional
  · subst hne
    exact h.rereads (h.bodyRereads_conditional hbelow hgroups hlen hp)
  · have hrest := Lead.rest_length h.read
    exact h.rereads (h.bodyRereads hne (hbelow (by omega) h.body (h.testsPlainly hne hp)))

theorem rereadsBelow (n : Nat) : RereadsBelow g n ∧ GroupsRereadBelow g n := by
  induction n with
  | zero =>
    exact ⟨fun hlen => absurd hlen (Nat.not_lt_zero _), fun hlen => absurd hlen (Nat.not_lt_zero _)⟩
  | succ n ih =>
    obtain ⟨hbelow, hgroups⟩ := ih
    have hgroups : GroupsRereadBelow g (n + 1) := hgroups.succ hbelow
    exact ⟨fun hlen h hp => h.rereads hbelow hgroups hlen hp, hgroups⟩

/-- The changed branches are read from their text, up to the end as well as up to any stop. -/
theorem Reads.reads_reread {f f' : Front} {t t' : Text} {branches : List (List Node)}
    (h : Reads g f t branches f' t') (hp : TestsPlainly branches) {s : Text} (hs : IsStop s)
    (hnil : t' = [] ↔ s = []) :
    Reads g f (branchesText (rereadAll branches) ++ s) (rereadAll branches) f' s :=
  ((rereadsBelow (t.length + 1)).1 (Nat.lt_succ_self _) h hp s hs hnil).1

end Below

section Patterns

variable {pattern : Text} {stream : Stream} {tree : Node} {groups : GroupTable}

/-- The text of the changed tree is read as the changed tree. -/
theorem readTree_reread (hs : blocksOf pattern = .ok stream)
    (hc : ∀ b ∈ stream.blocks, ∀ r ∈ b.repetition, r.IsCanonical)
    (htree : readTree pattern = .ok (tree, groups)) (ht : tree.Every (·.testsMode = false)) :
    readTree tree.restructured.render = .ok (tree.reread, groups) := by
  obtain ⟨stream', branches, hs', rfl, hA, rfl⟩ := exists_assembles_of_readTree htree
  obtain rfl : stream = stream' := Except.ok.inj (hs.symm.trans hs')
  obtain ⟨f, h, hcaptures, hnames⟩ := reads_of_blocksOf hs hA hc
  have hp : TestsPlainly branches := (every_bodyNode testsMode_eq_false).1 ht
  have hread := h.reads_reread hp (s := []) (by simp [IsStop]) Iff.rfl
  rw [List.append_nil, ← hcaptures, ← hnames] at hread
  have hroot : (bodyNode branches).reread = bodyNode (rereadAll branches) :=
    treeHom_reread.map_bodyNode branches
  rw [← render_retested, ← Node.reread, hroot, render_bodyNode, readTree_of_reads hread,
    hcaptures, hnames]

/-- A portable form read in either style is found portable, and gives the groups and the tree of
the pattern that was made portable. -/
theorem read_portable {read : Pattern} (hs : blocksOf pattern = .ok stream)
    (hc : ∀ b ∈ stream.blocks, ∀ r ∈ b.repetition, r.IsCanonical)
    (htree : readTree pattern = .ok (tree, groups))
    (ht : ∀ n ∈ tree.subtrees, n.testsOptions = false)
    (hp : Pattern.read .restructure pattern = .ok read) (style : Style) :
    ∃ again, Pattern.read style read.portable = .ok again ∧ again.changed = false ∧
      again.groups = read.groups ∧ again.root = read.root := by
  have hread : read = ⟨tree.restructured, groups,
      if (tree.portable .restructure).2 then tree.restructured.render else pattern,
      (tree.portable .restructure).2⟩ := by
    rw [Pattern.read, htree] at hp
    exact (Except.ok.inj hp).symm
  -- an unchanged tree is the tree of the pattern itself
  have hagain : readTree read.portable = .ok (tree.restructured, groups) := by
    rw [hread]
    cases hchanged : (tree.portable .restructure).2 with
    | true =>
      have hagain := readTree_reread hs hc htree fun n hn => testsMode_of_testsOptions (ht n hn)
      rw [reread_eq_restructured (recordsTest_of_readTree htree) ht] at hagain
      exact hagain
    | false => rw [Node.restructured, portable_of_unchanged hchanged]; exact htree
  have hportable : (tree.restructured.portable style).2 = false := portable_restructured_snd tree
  refine ⟨⟨tree.restructured, groups, read.portable, false⟩, ?_, rfl, by rw [hread], by rw [hread]⟩
  rw [Pattern.read, hagain]
  have hsame : tree.restructured.portable style = (tree.restructured, false) :=
    Prod.ext (portable_of_unchanged hportable) hportable
  simp only [bind, Except.bind, hsame]
  rfl

/-- The test sets an option, and the first branch turns captures by plain parentheses off, which the
second branch finds so and which ends with the conditional. -/
def renumberingPattern : Text := "(?(?i:a)+(?n)(b)|(c)(?<e>d)\\1)(f)".toList

theorem read_portable_renumberingPattern :
    ∃ stream tree groups read again, blocksOf renumberingPattern = .ok stream ∧
      (∀ b ∈ stream.blocks, ∀ r ∈ b.repetition, r.IsCanonical) ∧
      readTree renumberingPattern = .ok (tree, groups) ∧
      (∀ n ∈ tree.subtrees, n.testsOptions = false) ∧
      Pattern.read .restructure renumberingPattern = .ok read ∧
      read.portable = "(?(?:(?i:a)+)(?:(?n)(b))|(?:(?n)(c)(?<e>d)\\1))(f)".toList ∧
      Pattern.read .annotate read.portable = .ok again ∧ again.changed = false ∧
      again.groups = read.groups ∧ again.root = read.root := by
  have hblocks : ((blocksOf renumberingPattern).toOption.map fun stream =>
      decide (∀ b ∈ stream.blocks, ∀ r ∈ b.repetition, r.IsCanonical)) = some true := by
    decide +kernel
  have htree : ((readTree renumberingPattern).toOption.map fun found =>
      decide (∀ n ∈ found.1.subtrees, n.testsOptions = false)) = some true := by decide +kernel
  have hread : (Pattern.read .restructure renumberingPattern).toOption.map (·.portable) =
      some "(?(?:(?i:a)+)(?:(?n)(b))|(?:(?n)(c)(?<e>d)\\1))(f)".toList := by decide +kernel
  cases hs : blocksOf renumberingPattern with
  | error e => rw [hs] at hblocks; cases hblocks
  | ok stream =>
    cases h : readTree renumberingPattern with
    | error e => rw [h] at htree; cases htree
    | ok found =>
      cases hp : Pattern.read .restructure renumberingPattern with
      | error e => rw [hp] at hread; cases hread
      | ok read =>
        obtain ⟨tree, groups⟩ := found
        rw [hs] at hblocks
        rw [h] at htree
        rw [hp] at hread
        have hc := of_decide_eq_true (Option.some.inj hblocks)
        have ht : ∀ n ∈ tree.subtrees, n.testsOptions = false :=
          of_decide_eq_true (Option.some.inj htree)
        obtain ⟨again, hagain⟩ := read_portable hs hc h ht hp .annotate
        have htext := Option.some.inj hread
        exact ⟨stream, tree, groups, read, again, rfl, hc, rfl, ht, rfl, htext, hagain⟩

end Patterns

end RegexAnatomy
