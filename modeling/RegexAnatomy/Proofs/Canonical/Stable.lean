import RegexAnatomy.Proofs.Canonical.Respelled
import RegexAnatomy.Proofs.Portable.Reparse

/-! A pattern in canonical spelling is read again. Its tree is cut otherwise where
literal text runs together, and is else the tree that was spelled: the same text is
written for it, the same groups are in it, and the same references. So is the
portable form of a pattern read again, which is in canonical spelling if a
conditional had to change. -/

namespace RegexAnatomy

section Trees

variable {tree again : Node}

theorem testsMode_spelled (condition : Condition) (yes : Node) (no : Option Node)
    (hasBar testIsConstruct : Bool) (p : Portability) :
    (Node.conditional condition.spelled (branchNode yes.spelled) (spelledNo no) hasBar
      testIsConstruct p).testsMode =
        (Node.conditional condition yes no hasBar testIsConstruct p).testsMode := by
  cases condition with
  | group => rfl
  | expression test => exact congrArg (Option.any setsMode) (optionText?_branchNode_spelled test)

/-- A tree that is cut otherwise needs the same changes. -/
theorem portable_recut_snd (h : branchNode again.spelled = branchNode tree.spelled)
    (style : Style) : (again.portable style).2 = (tree.portable style).2 := by
  rw [← portable_spelled_snd, ← portable_branchNode_snd style again.spelled_ne_nil, h,
    portable_branchNode_snd style tree.spelled_ne_nil, portable_spelled_snd]

theorem portableText_recut (h : branchNode again.spelled = branchNode tree.spelled) :
    again.portableText = tree.portableText := by
  rw [← portableText_spelled, ← portableText_branchNode again.spelled_ne_nil, h,
    portableText_branchNode tree.spelled_ne_nil, portableText_spelled]

theorem references_recut (h : branchNode again.spelled = branchNode tree.spelled) :
    again.references = tree.references := by
  rw [← references_spelled, ← references_branchNode again.spelled_ne_nil, h,
    references_branchNode tree.spelled_ne_nil, references_spelled]

theorem every_testsMode_spelled (tree : Node) :
    (branchNode tree.spelled).Every (·.testsMode = false) ↔ tree.Every (·.testsMode = false) := by
  rw [every_branchNode testsMode_eq_false]
  refine every_spelled testsMode_eq_false ?_ tree
  intro condition yes no hasBar testIsConstruct p
  rw [testsMode_spelled]

/-- A tree that is portable as it stands tests no options. -/
theorem testsOptions_of_unchanged {style : Style} {node : Node} :
    (node.portable style).2 = false → node.Every (·.testsOptions = false) := by
  induction node using Node.induction with
  | atom => exact fun _ => every_atom.2 rfl
  | sequence children quantifier wrapping isTest ih =>
    intro h
    simp only [portable_sequence, List.any_eq_false, Bool.not_eq_true] at h
    exact every_sequence.2 ⟨rfl, fun c hc => ih c hc (h c hc)⟩
  | alternation branches ih =>
    intro h
    simp only [portable_alternation, List.any_eq_false, Bool.not_eq_true] at h
    exact every_alternation.2 ⟨rfl, fun b hb => ih b hb (h b hb)⟩
  | conditional condition yes no hasBar testIsConstruct p iht ihy ihn =>
    intro h
    simp only [portable_conditional, Bool.or_eq_false_iff] at h
    obtain ⟨⟨⟨hc, hy⟩, hn⟩, hplan⟩ := h
    have hset : condition.setsOptions = false := (Plan.isNeeded_eq_false.1 hplan).1
    refine every_conditional.2 ⟨?_, ?_, ihy hy, ?_⟩
    · cases condition with
      | group => rfl
      | expression test => exact (Bool.or_eq_false_iff.1 hset).1
    · rintro test rfl
      exact iht test rfl hc
    · rintro n ⟨⟩
      exact ihn n rfl (by simpa using hn)

end Trees

section Patterns

variable {pattern : Text} {stream : Stream} {tree : Node} {groups : GroupTable}

/-- The blocks of a pattern in canonical spelling are read as its tree, recut. -/
theorem exists_reads_canonicalText (hs : blocksOf pattern = .ok stream)
    (htree : readTree pattern = .ok (tree, groups)) (hapart : staysApart [] stream.blocks)
    (hglue : tree.Every (·.testGlues groups = false)) :
    ∃ branches f, Reads groups {} (stream.blocks.flatMap Block.canonicalText) branches f [] ∧
      groups = .ofCaptures f.captures f.names ∧
      branchNode (bodyNode branches).spelled = branchNode tree.spelled := by
  obtain ⟨stream', branches, hs', rfl, hA, rfl⟩ := exists_assembles_of_readTree htree
  obtain rfl : stream = stream' := Except.ok.inj (hs.symm.trans hs')
  obtain ⟨last, hcuts, hu, -, hcaptures, hnames⟩ := blocksOf_eq_ok.1 hs
  have hend : IsStop [] := by simp [IsStop]
  obtain ⟨-, -, -, again, hrecut, hread⟩ := hA.respelled hcuts hend (by rw [hu]) hapart
    ((every_bodyNode (testGlues_eq_false _)).1 hglue)
  rw [List.append_nil] at hread
  refine ⟨again, last.front, hread, ?_, ?_⟩
  · rw [hcaptures, hnames]
    rfl
  · rw [bodyNode_spelled, bodyNode_spelled, map_spelledAll_eq hrecut]

/-- The portable text of a pattern is read. It needs no change then, and is itself. -/
theorem exists_read_portableText (hs : blocksOf pattern = .ok stream)
    (htree : readTree pattern = .ok (tree, groups)) (hapart : staysApart [] stream.blocks)
    (hglue : tree.Every (·.testGlues groups = false))
    (ht : tree.Every (·.testsMode = false)) :
    ∃ again : Node, branchNode again.spelled = branchNode tree.spelled ∧
      again.Every Node.RecordsTest ∧ again.reread.render = tree.portableText ∧
      readTree tree.portableText = .ok (again.reread, groups) := by
  obtain ⟨branches, f, hread, rfl, hrecut⟩ :=
    exists_reads_canonicalText hs htree hapart hglue
  have htrees : (bodyNode branches).Every (·.testsMode = false) := by
    rw [← every_testsMode_spelled, hrecut, every_testsMode_spelled]
    exact ht
  have hagain := hread.reads_reread
    ((every_bodyNode testsMode_eq_false).1 htrees) (s := []) (by simp [IsStop]) Iff.rfl
  have hroot : (bodyNode branches).reread = bodyNode (rereadAll branches) :=
    treeHom_reread.map_bodyNode branches
  have hfirst := readTree_of_reads hread
  have htext : branchesText (rereadAll branches) = tree.portableText := by
    rw [← portableText_recut hrecut, Node.portableText,
      portable_render_eq (unrecorded_of_readTree hfirst), ← render_bodyNode, ← hroot, Node.reread,
      render_retested]
    rfl
  rw [List.append_nil, htext] at hagain
  refine ⟨bodyNode branches, hrecut, recordsTest_of_readTree hfirst, ?_, ?_⟩
  · rw [hroot, render_bodyNode, htext]
  · rw [readTree_of_reads hagain, hroot]

/-- The text written for the tree of a portable pattern is read again, as that text, with the same
groups and the same references, unless canonical spelling lets a token run into what is behind it or
lets the test of a conditional become the name of a group. -/
theorem read_render {read : Pattern} {style : Style} (hs : blocksOf pattern = .ok stream)
    (hr : Pattern.read style pattern = .ok read) (hu : read.changed = false)
    (hapart : staysApart [] stream.blocks = true)
    (hglue : ∀ n ∈ read.root.subtrees, n.testGlues read.groups = false) (style' : Style) :
    ∃ again, Pattern.read style' read.root.render = .ok again ∧ again.changed = false ∧
      again.root.render = read.root.render ∧ again.groups = read.groups ∧
      again.root.references = read.root.references := by
  obtain ⟨⟨tree, groups⟩, htree, hr⟩ := bind_eq_ok.1 hr
  cases hr
  replace hu : (tree.portable style).2 = false := hu
  have hroot : (tree.portable style).1 = tree := portable_of_unchanged hu
  have hu' (style' : Style) : (tree.portable style').2 = false :=
    (portable_snd_of_style tree style' style).trans hu
  simp only [hroot] at hglue ⊢
  have htests : tree.Every (·.testsMode = false) :=
    fun n hn => testsMode_of_testsOptions (testsOptions_of_unchanged hu n hn)
  obtain ⟨again, hrecut, hrecords, htext, hread⟩ :=
    exists_read_portableText hs htree hapart hglue htests
  have hagain (style' : Style) : again.portable style' = (again, false) := by
    have h := (portable_recut_snd hrecut style').trans (hu' style')
    exact Prod.ext (portable_of_unchanged h) h
  have hrender : tree.portableText = tree.render := by
    rw [Node.portableText, portable_of_unchanged (hu' .annotate)]
  have hsame : again.reread = again := by
    have hportable := hagain .restructure
    rw [reread_eq_restructured hrecords (testsOptions_of_unchanged (congrArg Prod.snd hportable))]
    exact congrArg Prod.fst hportable
  rw [hsame] at htext hread
  rw [hrender] at htext hread
  refine ⟨⟨again, groups, tree.render, false⟩, ?_, rfl, htext, rfl, references_recut hrecut⟩
  rw [Pattern.read, hread]
  simp only [bind, Except.bind, hagain]
  rfl

def countedPattern : Text := "(a{1}b){1}\\1{1}c(?(1){1}d{2,2}|e{1,1}f)".toList

theorem read_render_countedPattern :
    ∃ stream read again, blocksOf countedPattern = .ok stream ∧
      Pattern.read .annotate countedPattern = .ok read ∧ read.changed = false ∧
      staysApart [] stream.blocks = true ∧
      (∀ n ∈ read.root.subtrees, n.testGlues read.groups = false) ∧
      read.root.render = "(ab)\\1c(?(1)d{2}|ef)".toList ∧
      Pattern.read .restructure read.root.render = .ok again ∧ again.changed = false ∧
      again.root.render = read.root.render ∧ again.groups = read.groups ∧
      again.root.references = read.root.references := by
  have hblocks : (blocksOf countedPattern).toOption.map
      (fun stream => staysApart [] stream.blocks) = some true := by decide +kernel
  have hread : ((Pattern.read .annotate countedPattern).toOption.map fun read =>
      (read.changed, decide (∀ n ∈ read.root.subtrees, n.testGlues read.groups = false),
        read.root.render)) = some (false, true, "(ab)\\1c(?(1)d{2}|ef)".toList) := by
    decide +kernel
  cases hs : blocksOf countedPattern with
  | error e => rw [hs] at hblocks; cases hblocks
  | ok stream =>
    cases hr : Pattern.read .annotate countedPattern with
    | error e => rw [hr] at hread; cases hread
    | ok read =>
      rw [hs] at hblocks
      rw [hr] at hread
      obtain ⟨hu, hread⟩ := Prod.mk.inj (Option.some.inj hread)
      obtain ⟨hglue, htext⟩ := Prod.mk.inj hread
      have hapart : staysApart [] stream.blocks = true := Option.some.inj hblocks
      have hglue : ∀ n ∈ read.root.subtrees, n.testGlues read.groups = false :=
        of_decide_eq_true hglue
      obtain ⟨again, hagain⟩ := read_render hs hr hu hapart hglue .restructure
      exact ⟨stream, read, again, rfl, rfl, hu, hapart, hglue, htext, hagain⟩

end Patterns

/-- The count that is always one keeps a reference apart from a digit. -/
def partedPattern : Text := "(?<8>a)\\8{1}9".toList

theorem partedPattern_unstable :
    (Pattern.read .annotate partedPattern).toOption.map
        (fun read => (read.changed, read.root.render)) =
      some (false, "(?<8>a)\\89".toList) ∧
    ((Pattern.read .annotate "(?<8>a)\\89".toList).toOption.map fun read => read.root.render) =
      none := by
  decide +kernel

end RegexAnatomy
