import RegexAnatomy.Proofs.Portable.Reread

/-! The portable form of a conditional is read as the changed conditional. The test
is read again on its own or in a group; a first branch that sets options is read
in a group, and the second branch behind it starts under the options that the
conditional started with, so it is read in a group that sets again what the first
one left set. Options that are the test themselves end with the group around them,
and the branches are read as before if these options change nothing about that. -/

namespace RegexAnatomy

/-- How the test of a conditional is read: a group, or options and nothing else. -/
inductive TestReads (g : GroupTable) (f : Front) (t : Text) (test : Node) : Front → Text → Prop
  | group {lead : Lead} {opening : Opening} {level : Level} {inside : Front} {a b : Text}
      {node : Node} {repetition : Option Repetition}
      (hat : GroupAt g f t lead opening level inside a node)
      (hs : splitRepetition f.mode.freeSpacing a = (repetition, b))
      (hc : ∀ r ∈ repetition, r.IsCanonical)
      (hq : quantify node (Token.close.block repetition).suffix = [test]) :
    TestReads g f t test (inside.leave f) b
  | options {lead : Lead} {text : Text} (ht : StartsToken f.mode.freeSpacing t)
      (hl : readLead f.context t = .ok (some lead)) (htoken : lead.token = .options text)
      (htest : test = .plain text .inlineOptions) :
    TestReads g f t test (f.note lead.token) lead.rest

/-- The test of a conditional can be read changed in front of anything that can be read behind. -/
structure TestRereads (g : GroupTable) (f after : Front) (condition : Condition) (test' : Node) :
    Prop where
  tested : testCondition g 0 test' = .ok condition.reread
  written : condition.reread.render false = test'.render
  reads : ∀ {s : Text} {rest : List Node} {branches : List (List Node)} {f' : Front} {t' : Text},
    Reads g after s (rest :: branches) f' t' →
      Reads g f (test'.render ++ s) ((test' :: rest) :: branches) f' t' ∧
        StartsTest (test'.render ++ s)

section Tests

variable {g : GroupTable} {f inside : Front} {t a b : Text} {node test : Node}
  {repetition : Option Repetition}

/-- Only a leaf in plain parentheses can name a group. -/
theorem Node.IsGroup.eq_of_testToken {s : Suffix} {token : Text} (h : node.IsGroup)
    (hq : quantify node s = [test]) (ht : testToken test = some token) :
    ∃ kind isReference capture isTest,
      node = .sequence [.atom token kind isReference] [] (.bracket capture) isTest := by
  unfold testToken at ht
  split at ht <;> cases ht
  next kind isReference quantifier capture isTest =>
    rcases quantify_eq_cons hq with ⟨-, hnode⟩ | ⟨-, hnode⟩ | hnode
    · exact ⟨kind, isReference, capture, isTest, (h.quantified_eq_bracket hnode.symm).2⟩
    · subst hnode
      cases h
      exact ⟨kind, isReference, capture, isTest, rfl⟩
    · exact absurd (Node.sequence.inj hnode).2.2.1 (by simp)

/-- A test that names a group loses its quantifier. -/
theorem testRereads_group {id : GroupId} (h : GroupRereads g f t inside node) (hnode : node.IsGroup)
    (ht : StartsTest t) (hq : quantify node (Token.close.block repetition).suffix = [test])
    (hcond : testCondition g 0 test = .ok (.group id)) :
    TestRereads g f (inside.leave f) (.group id) node := by
  obtain ⟨token, htoken, hid⟩ := testCondition_group hcond
  obtain ⟨kind, isReference, capture, isTest, rfl⟩ := hnode.eq_of_testToken hq htoken
  have hsame : (Node.sequence [.atom token kind isReference] [] (.bracket capture) isTest).reread =
      .sequence [.atom token kind isReference] [] (.bracket capture) isTest := rfl
  refine ⟨?_, ?_, fun {s _ _ _ _} hrest => ?_⟩
  · exact testCondition_eq_ok.2 (.inl ⟨token, id, rfl, hid, rfl⟩)
  · have hrender : (Condition.group id).reread.render false = '(' :: id.token ++ [')'] := rfl
    rw [hrender, GroupTable.resolve_token hid]
    simp [Node.render, Wrapping.around]
  · obtain ⟨hread, halike⟩ := h (splitRepetition_nil _) (by simp) hrest
    have hsuffix : quantify (Node.sequence [.atom token kind isReference] [] (.bracket capture)
        isTest) (Token.close.block none).suffix =
          [.sequence [.atom token kind isReference] [] (.bracket capture) isTest] := rfl
    rw [hsame, hsuffix] at hread halike
    rw [renderAll_cons, renderAll_nil, List.append_nil] at hread halike
    exact ⟨hread, halike.startsTest ht⟩

theorem quantify_reread {token : Token}
    (hq : quantify node (token.block repetition).suffix = [test]) :
    quantify node.reread (token.block repetition).suffix = [test.reread] := by
  obtain ⟨items, hb⟩ := (token.block repetition).suffix_before
  rw [← treeHom_reread.map_quantify node hb, hq]
  rfl

theorem testCondition_of_testToken {test' marked : Node}
    (h : testCondition g 0 test = .ok (.expression marked))
    (ht : testToken test' = none ∨ testToken test' = testToken test) :
    testCondition g 0 test' = .ok (.expression (test'.markTest true)) := by
  refine testCondition_eq_ok.2 (.inr ⟨?_, rfl⟩)
  rcases testCondition_eq_ok.1 h with ⟨_, _, -, -, he⟩ | ⟨htoken, -⟩
  · cases he
  · rcases ht with ht | ht
    · simp [ht]
    · rwa [ht]

/-- Any other test that sets no options keeps its quantifier. -/
theorem testRereads_kept (h : GroupRereads g f t inside node) (ht : StartsTest t)
    (hs : splitRepetition f.mode.freeSpacing a = (repetition, b))
    (hc : ∀ r ∈ repetition, r.IsCanonical)
    (hq : quantify node (Token.close.block repetition).suffix = [test])
    (hcond : testCondition g 0 test = .ok (.expression (test.markTest true)))
    (hset : (test.markTest true).setsOptions = false) :
    TestRereads g f (inside.leave f) (.expression (test.markTest true)) test.reread := by
  have hchanged : (Condition.expression (test.markTest true)).reread =
      .expression (test.reread.markTest true) := by
    rw [← treeHom_reread.map_markTest]
    exact congrArg Condition.retested (if_neg (ne_true_of_eq_false hset))
  refine ⟨?_, ?_, fun hrest => ?_⟩
  · rw [hchanged]
    exact testCondition_of_testToken hcond (.inr (treeHom_reread.testToken_map test))
  · rw [hchanged]
    exact Node.render_markTest true _
  · obtain ⟨hread, halike⟩ := h hs hc hrest
    rw [quantify_reread hq, renderAll_cons, renderAll_nil, List.append_nil] at hread halike
    exact ⟨hread, halike.startsTest ht⟩

theorem Node.markTest_markTest (isTest isTest' : Bool) :
    (node.markTest isTest').markTest isTest = node.markTest isTest := by
  cases node <;> rfl

theorem testToken_grouped (node : Node) : testToken node.grouped = none := by
  obtain ⟨children, isTest, h⟩ := exists_grouped_eq node
  rw [h]
  unfold testToken
  split
  next he => exact absurd (Node.sequence.inj he).2.2.1 (by simp [Wrapping.nonCapturing])
  next => rfl

/-- A test that sets options is read in a group, and need not stand first to be read so. -/
theorem testRereads_wrapped
    (hread : ∀ s, Reads g f.settle (test.reread.render ++ ')' :: s) [[test.reread]] inside
      (')' :: s))
    (hcond : testCondition g 0 test = .ok (.expression (test.markTest true)))
    (hset : (test.markTest true).setsOptions = true) (hunmarked : test.markTest false = test) :
    TestRereads g f (inside.leave f) (.expression (test.markTest true)) test.reread.grouped := by
  have hunmarked' : (test.reread.markTest true).markTest false = test.reread := by
    rw [Node.markTest_markTest, ← treeHom_reread.map_markTest, hunmarked]
  have hchanged : (Condition.expression (test.markTest true)).reread =
      .expression (test.reread.grouped.markTest true) := by
    have hgrouped : (Condition.expression (test.reread.markTest true)).grouped =
        .expression (test.reread.grouped.markTest true) := by
      rw [Condition.grouped, hunmarked']
    rw [← hgrouped, ← treeHom_reread.map_markTest, Condition.reread, Condition.changed, if_pos,
      retested_grouped]
    · rfl
    · exact hset
  refine ⟨?_, ?_, fun {s _ _ _ _} hrest => ?_⟩
  · rw [hchanged]
    exact testCondition_of_testToken hcond (.inl (testToken_grouped _))
  · rw [hchanged]
    exact Node.render_markTest true _
  · have hgrouped := Reads.grouped (hread s) hrest
    have htext : test.reread.grouped.render ++ s =
        '(' :: '?' :: ':' :: (test.reread.render ++ ')' :: s) := by
      simp [Node.render_grouped, groupedWhen]
    rw [htext]
    exact ⟨hgrouped, rfl, rfl⟩

theorem isConstruct_of_setsOptions (hset : (test.markTest true).setsOptions = true)
    (hoptions : test.optionText? = none) : isConstruct test = true := by
  cases test with
  | atom text kind =>
    cases kind with
    | inlineOptions => cases hoptions
    | _ => cases hset
  | sequence children quantifier wrapping => cases wrapping <;> first | rfl | cases hset
  | _ => cases hset

theorem isConstruct_quantify (h : isConstruct node = false) (token : Token) :
    ∀ n ∈ quantify node (token.block repetition).suffix, isConstruct n = false := by
  refine forall_mem_quantify _ (fun _ => rfl) h ?_ fun _ _ => rfl
  unfold Node.quantified
  split
  · exact h
  · split <;> first | rfl | cases h

/-- Plain parentheses become no construct. -/
theorem GroupAt.ne_openParen {lead : Lead} {opening : Opening} {level : Level}
    (h : GroupAt g f t lead opening level inside a node)
    (hq : quantify node (Token.close.block repetition).suffix = [test])
    (hconstruct : isConstruct test = true) (capture : Option Nat) :
    lead.token ≠ .openParen capture := by
  intro htoken
  obtain ⟨-, -, ho, -, hn⟩ := h
  rw [htoken] at ho
  cases ho
  have hnode : isConstruct node = false := by
    cases hn
    unfold Node.wrapped
    split <;> rfl
  have htest := isConstruct_quantify hnode .close test (hq ▸ List.mem_singleton_self test)
  rw [htest] at hconstruct
  cases hconstruct

theorem GroupAt.settle {lead : Lead} {opening : Opening} {level : Level}
    (h : GroupAt g f t lead opening level inside a node)
    (hne : ∀ capture, lead.token ≠ .openParen capture) :
    GroupAt g f.settle t lead opening level inside a node :=
  ⟨h.starts, readLead_of_mode h.read (Token.ne_close_of_opening h.opens) rfl
    fun capture hc => absurd hc (hne capture), h.opens, h.body, h.node⟩

/-- Options that are the test are read in a group, and behind it as if they were not there. -/
theorem testRereads_options {lead : Lead} {text : Text} (ht : StartsToken f.mode.freeSpacing t)
    (hl : readLead f.context t = .ok (some lead)) (htoken : lead.token = .options text)
    (hmode : setsMode text = false) :
    TestRereads g f (f.note lead.token) (.expression (.plain text .inlineOptions))
      (Node.plain text .inlineOptions).grouped := by
  have hread (s : Text) : Reads g f.settle (text ++ ')' :: s) [[.plain text .inlineOptions]]
      (f.settle.note lead.token) (')' :: s) := by
    have hfits : lead.FitsBefore f.mode.freeSpacing (')' :: s) := by
      simp [Lead.FitsBefore, htoken]
    obtain ⟨hl', halike⟩ := readLead_again hl ht.comment hfits
    have halone : lead.repeatable = false := (readLead_regular hl).alone (by rw [htoken]; trivial)
    have htext : lead.token.text = text := by rw [htoken]; rfl
    have hstop : IsStop (')' :: s) := by simp [IsStop]
    rw [htext] at hl' halike
    exact .leaf (f := f.settle) (halike.startsToken ht)
      (readLead_of_mode hl' (by simp [htoken]) rfl (by simp [htoken]))
      (by rw [Lead.splitTail, halone]; rfl) (by simp) (.options htoken) (.stop hstop)
  have hleave : (f.settle.note lead.token).leave f = f.note lead.token := by
    simp [htoken, Front.note, Front.leave, Front.settle, mode_apply_of_setsMode hmode]
  rw [← hleave]
  exact @testRereads_wrapped g f _ (.plain text .inlineOptions) hread rfl rfl rfl

/-- Behind the test less is left to be read. -/
theorem TestReads.length_lt {after : Front} (h : TestReads g f t test after b) :
    b.length < t.length := by
  cases h with
  | group hat hs hc hq =>
    have h1 := Lead.rest_length hat.read
    have h2 := hat.body.length_le
    have h3 := length_le_of_splitRepetition hs
    rw [List.length_cons] at h2
    omega
  | options ht hl => exact Lead.rest_length hl

theorem TestReads.settle {after : Front} (h : TestReads g f t test after b) :
    after.settle = after := by
  cases h with
  | group => rfl
  | options ht hl htoken => rw [htoken]; rfl

/-- Whatever a conditional tests is read changed, but for options that change how its branches are
read. -/
theorem TestReads.exists_rereads {n : Nat} {after : Front} {condition : Condition}
    (hgroups : GroupsRereadBelow g n) (hlen : t.length < n) (h : TestReads g f t test after b)
    (ht : StartsTest t) (hcond : testCondition g 0 test = .ok condition)
    (hp : ∀ marked, condition = .expression marked →
      marked.optionText?.any setsMode = false ∧ marked.Every (·.testsMode = false)) :
    ∃ test', TestRereads g f after condition test' := by
  cases h with
  | options hstarts hl htoken htest =>
    subst htest
    obtain rfl : Condition.expression (.plain _ .inlineOptions) = condition :=
      Except.ok.inj hcond
    exact ⟨_, testRereads_options hstarts hl htoken (hp _ rfl).1⟩
  | @group lead opening level inside a b node repetition hat hs hc hq =>
    have hnode : node.IsGroup := Opening.isGroup_node hat.node
    cases condition with
    | group id =>
      have hevery : node.Every (·.testsMode = false) := by
        obtain ⟨token, htoken, -⟩ := testCondition_group hcond
        obtain ⟨kind, isReference, capture, isTest, rfl⟩ := hnode.eq_of_testToken hq htoken
        refine (every_parts testsMode_eq_false).2 (List.forall_mem_singleton.2 ?_)
        exact every_atom.2 rfl
      exact ⟨node, testRereads_group (hgroups hlen hat hevery) hnode ht hq hcond⟩
    | expression marked =>
      obtain rfl := testCondition_expression hcond
      have htest : test ∈ quantify node (Token.close.block repetition).suffix :=
        hq ▸ List.mem_singleton_self test
      have hevery : node.Every (·.testsMode = false) := by
        refine (every_quantify testsMode_eq_false (Token.close.block repetition)).1 ?_
        rw [hq]
        exact List.forall_mem_singleton.2
          ((every_markTest testsMode_eq_false true).1 (hp _ rfl).2)
      cases hset : (test.markTest true).setsOptions with
      | false => exact ⟨_, testRereads_kept (hgroups hlen hat hevery) ht hs hc hq hcond hset⟩
      | true =>
        have hoptions : test.optionText? = none :=
          optionText?_quantify (Node.Repeatable.group hnode).leaked_eq.2 _ test htest
        have hunmarked : test.markTest false = test :=
          unmarked_quantify (Opening.unmarked_node hat.node hat.body.unmarked) _ test htest
        have hat' := hat.settle (hat.ne_openParen hq (isConstruct_of_setsOptions hset hoptions))
        have hread (s : Text) : Reads g f.settle (test.reread.render ++ ')' :: s) [[test.reread]]
            (inside.leave f.settle) (')' :: s) := by
          have hstop : IsStop (')' :: s) := by simp [IsStop]
          obtain ⟨hread, -⟩ := hgroups hlen hat' hevery hs hc (.stop hstop)
          rwa [quantify_reread hq, renderAll_cons, renderAll_nil, List.append_nil] at hread
        have hwrapped := testRereads_wrapped hread hcond hset hunmarked
        exact ⟨_, hwrapped⟩

/-- The test of a conditional stands in front of its first branch. -/
theorem Reads.exists_test {yes : List Node} {branches : List (List Node)} {f' : Front} {t' : Text}
    (h : Reads g f t ((test :: yes) :: branches) f' t') (ht : StartsTest t) :
    ∃ after b, TestReads g f t test after b ∧ Reads g after b (yes :: branches) f' t' := by
  generalize hfound : (test :: yes) :: branches = found at h
  cases h with
  | stop => cases hfound
  | bar => cases hfound
  | trivia hs =>
    obtain ⟨rest, rfl⟩ := List.head?_eq_some_iff.1 ht.1
    rw [(shut_paren ht.2).trivia] at hs
    cases hs
  | @leaf _ _ _ _ _ lead repetition nodes _ _ hstarts hl hs hc hy h =>
    obtain ⟨hbranch, rfl⟩ := List.cons.inj hfound
    have hregular := regular_block hl hs
    rcases hy.cases hregular with ⟨hlayout, -⟩ | ⟨text, htoken, rfl⟩ | ⟨_, _, _, _, hleaf, -⟩
    · exact absurd hlayout (readLead_regular hl).notLayout
    · obtain ⟨rfl, rfl⟩ := List.cons.inj hbranch
      have htoken : lead.token = .options text := htoken
      have halone : lead.repeatable = false :=
        (readLead_regular hl).alone (by rw [htoken]; trivial)
      rw [Lead.splitTail, halone] at hs
      cases hs
      exact ⟨_, _, .options hstarts hl htoken rfl, h⟩
    · exact absurd (readLead_standsAlone hl ht.1) hleaf.not_standsAlone
  | group hstarts hl ho hi hn hs hc h =>
    obtain ⟨hbranch, rfl⟩ := List.cons.inj hfound
    obtain ⟨repeated, hq⟩ := exists_quantify_block hs hc .close _
    rw [hq] at hbranch
    obtain ⟨rfl, rfl⟩ := List.cons.inj hbranch
    have hat := GroupAt.mk hstarts hl ho hi (Opening.node_of_start hn 0)
    exact ⟨_, _, .group hat hs hc hq, h⟩

end Tests

section Branches

variable {g : GroupTable} {f inside after : Front} {t t' a : Text} {yes no : List Node}

def changedYes (yes : List Node) : List Node :=
  (planYes (branchNode yes)).onNodes (yes.map Node.reread)

def changedNo (yes no : List Node) : List Node :=
  (planNo (branchNode yes) (branchNode no)).onNodes (no.map Node.reread)

theorem branchNode_changedYes (yes : List Node) : branchNode (changedYes yes) =
    (planYes (branchNode yes)).apply (branchNode yes).reread := by
  rw [changedYes, branchNode_onNodes, ← treeHom_reread.map_branchNode]

theorem branchNode_changedNo (yes no : List Node) : branchNode (changedNo yes no) =
    (planNo (branchNode yes) (branchNode no)).apply (branchNode no).reread := by
  rw [changedNo, branchNode_onNodes, ← treeHom_reread.map_branchNode]

theorem BranchChange.leave_leave (change : BranchChange) (f inside f₀ : Front) :
    (change.leave f inside).leave f₀ = inside.leave f₀ := by
  cases change <;> rfl

/-- The second branch finds the options that the first one left set, or it is empty and needs
none. -/
theorem enters_planNo (hyes : Reads g f t [yes] inside ('|' :: a))
    (hno : Reads g inside.settle a [no] after t') :
    (planNo (branchNode yes) (branchNode no)).Enters (no.map Node.reread)
        ((planYes (branchNode yes)).leave f inside).settle inside.settle ∨
      planNo (branchNode yes) (branchNode no) = .keep ∧ no = [] := by
  have hu : ∀ n ∈ yes, n.IsUnit := hyes.isUnit yes (by simp)
  have hmode : inside.mode = (branchNode yes).branchOptions.foldl Mode.apply f.mode := by
    rw [branchOptions_branchNode hu]
    exact hyes.mode_eq
  have hconstructs : ∀ text ∈ (branchNode yes).branchOptions, IsOptionConstruct text := by
    intro text htext
    rw [branchOptions_branchNode hu] at htext
    obtain ⟨n, hn, ht⟩ := List.mem_filterMap.1 htext
    exact isOptionConstruct_of_unit (hu n hn) ht
  by_cases ho : (branchNode yes).branchOptions = []
  · have hsettle : ((planYes (branchNode yes)).leave f inside).settle = inside.settle := by
      rw [ho] at hmode
      replace hmode : inside.mode = f.mode := hmode
      cases planYes (branchNode yes) <;>
        simp [BranchChange.leave, Front.leave, Front.settle, hmode]
    rw [hsettle, planNo, if_neg (by simp [ho])]
    left
    split <;> rfl
  · have hset : planYes (branchNode yes) = .group := by
      refine if_pos ?_
      by_contra hne
      exact ho (branchOptions_eq_nil (eq_false_of_ne_true hne))
    by_cases hn : no = []
    · right
      subst hn
      have hempty : (branchNode []).isEmptyBranch = true := rfl
      rw [planNo, if_neg (by simp [hempty])]
      exact ⟨rfl, rfl⟩
    · left
      have hempty : (branchNode no).isEmptyBranch = false := hno.isEmptyBranch_eq hn
      rw [planNo, if_pos ⟨ho, by simp [hempty]⟩, hset]
      refine ⟨?_, by simpa using hn, netOptions_eq hconstructs⟩
      have happly : f.mode.apply (netOptions (branchNode yes).branchOptions) = inside.mode := by
        rw [mode_apply_netOptions hconstructs, hmode]
      simp only [BranchChange.leave, Front.leave, Front.settle, happly]

/-- A second branch is read changed behind a changed first branch. -/
theorem exists_reads_changedNo (hyes : Reads g f t [yes] inside ('|' :: a))
    (hno : Reads g inside.settle a [no] after t')
    (hread : ∀ s, IsStop s → s ≠ [] →
      Reads g inside.settle (renderAll (no.map Node.reread) ++ s)
        [no.map Node.reread] after s) :
    ∃ after', (∀ f₀, Front.leave after' f₀ = after.leave f₀) ∧ ∀ s, IsStop s → s ≠ [] →
      Reads g ((planYes (branchNode yes)).leave f inside).settle
        (renderAll (changedNo yes no) ++ s) [changedNo yes no] after' s := by
  rcases enters_planNo hyes hno with henters | ⟨hkeep, rfl⟩
  · exact ⟨_, BranchChange.leave_leave _ _ after,
      fun s hs hne => reads_onNodes hread henters hs hne⟩
  · rw [changedNo, hkeep, hno.eq_of_nil]
    refine ⟨_, fun f₀ => ?_, fun s hs _ => .stop hs⟩
    cases planYes (branchNode yes) <;> rfl

theorem RereadsBelow.branch {n : Nat} {branch : List Node} (hbelow : RereadsBelow g n)
    (hlen : t.length < n) (h : Reads g f t [branch] after t') (hne : t' ≠ [])
    (hp : ∀ n ∈ branch, n.Every (·.testsMode = false)) :
    ∀ s, IsStop s → s ≠ [] → Reads g f (renderAll (branch.map Node.reread) ++ s)
      [branch.map Node.reread] after s := by
  intro s hs hne'
  have hplain : TestsPlainly [branch] := List.forall_mem_singleton.2 hp
  obtain ⟨hread, -⟩ := hbelow hlen h hplain s hs (iff_of_false hne hne')
  have htext : branchesText (rereadAll [branch]) = renderAll (branch.map Node.reread) :=
    render_branchNode _
  rwa [htext] at hread

/-- The branches of a conditional are read changed behind its test. -/
theorem exists_reads_branches {n : Nat} {no : Option (List Node)} (hbelow : RereadsBelow g n)
    (hlen : t.length < n) (hf : f.settle = f)
    (h : Reads g f t (yes :: no.toList) inside (')' :: a)) (hp : TestsPlainly (yes :: no.toList)) :
    ∃ inside', (∀ f₀, Front.leave inside' f₀ = inside.leave f₀) ∧ ∀ s,
      let branches := changedYes yes :: (no.map (changedNo yes)).toList
      Reads g f (branchesText branches ++ ')' :: s) branches inside' (')' :: s) := by
  obtain ⟨hpyes, hpno⟩ := testsPlainly_cons.1 hp
  have henters : (planYes (branchNode yes)).Enters (yes.map Node.reread) f f := by
    unfold planYes
    split
    · exact hf.symm
    · rfl
  have hstop (s : Text) : IsStop (')' :: s) := by simp [IsStop]
  cases no with
  | none =>
    have hyes := hbelow.branch hlen h (by simp) hpyes
    refine ⟨_, BranchChange.leave_leave (planYes (branchNode yes)) f inside, fun s => ?_⟩
    have hread := reads_onNodes hyes henters (hstop s) (by simp)
    have htext : branchesText [changedYes yes] = renderAll (changedYes yes) := render_branchNode _
    simp only [Option.map_none, Option.toList_none, htext]
    exact hread
  | some no =>
    obtain ⟨between, rest, hyes, hno⟩ := h.split (by simp)
    have hrest := hyes.length_le
    rw [List.length_cons] at hrest
    obtain ⟨after', hleave, hchanged⟩ := exists_reads_changedNo hyes hno
      (hbelow.branch (by omega) hno (by simp) (hpno no (by simp)))
    refine ⟨after', hleave, fun s => ?_⟩
    have hyes := hbelow.branch hlen hyes (by simp) hpyes
    have hbar : IsStop ('|' :: (renderAll (changedNo yes no) ++ ')' :: s)) := by simp [IsStop]
    have hfirst := reads_onNodes hyes henters hbar (by simp)
    have hread := hfirst.join (hchanged (')' :: s) (hstop s) (by simp))
    have htext : branchesText [changedYes yes, changedNo yes no] =
        renderAll (changedYes yes) ++ '|' :: renderAll (changedNo yes no) := by
      simp [branchesText, renderBranches, render_branchNode]
    simp only [Option.map_some, Option.toList_some, htext, List.append_assoc, List.cons_append]
    exact hread

end Branches

section Conditionals

variable {g : GroupTable} {f inside : Front} {t a : Text} {lead : Lead} {level : Level}
  {node : Node}

/-- What a conditional is put together from. -/
theorem GroupAt.exists_conditional (h : GroupAt g f t lead .conditional level inside a node)
    (hp : node.Every (·.testsMode = false)) :
    ∃ test yes no condition, level.branches = (test :: yes) :: Option.toList no ∧
      testCondition g 0 test = .ok condition ∧
      (∀ marked, condition = .expression marked →
        marked.optionText?.any setsMode = false ∧ marked.Every (·.testsMode = false)) ∧
      TestsPlainly (yes :: no.toList) ∧
      node = .conditional condition (branchNode yes) (no.map branchNode) no.isSome
        (condition.testIsConstruct test) {} := by
  obtain ⟨test, yes, no, hlevel, hn⟩ := conditional_opening_eq_ok.1 h.node
  obtain ⟨condition, hcond, rfl⟩ := conditionalNode_eq_ok.1 hn
  obtain ⟨hself, hmarked, hyes, hno⟩ := every_conditional.1 hp
  refine ⟨test, yes, no, condition, hlevel, hcond, ?_, ?_, rfl⟩
  · rintro marked rfl
    exact ⟨hself, hmarked marked rfl⟩
  · refine testsPlainly_cons.2 ⟨(every_branchNode testsMode_eq_false).1 hyes, ?_⟩
    cases no with
    | none => simp [TestsPlainly]
    | some no =>
      exact List.forall_mem_singleton.2 ((every_branchNode testsMode_eq_false).1 (hno _ rfl))

/-- A conditional is read changed if its test is and what is behind the test. -/
theorem TestRereads.bodyRereads {after inside' : Front} {condition : Condition} {test' : Node}
    {yes : List Node} {no : Option (List Node)} (testIsConstruct : Bool)
    (htoken : lead.token = .openConditional)
    (htest : TestRereads g (f.note lead.token) after condition test')
    (hleave : inside'.leave f = inside.leave f)
    (hbranches : ∀ s, let branches := changedYes yes :: (no.map (changedNo yes)).toList
      Reads g after (branchesText branches ++ ')' :: s) branches inside' (')' :: s)) :
    BodyRereads g f lead .conditional inside (.conditional condition (branchNode yes)
      (no.map branchNode) no.isSome testIsConstruct {}) := by
  intro s
  obtain ⟨hread, hstarts⟩ := htest.reads (hbranches s)
  obtain ⟨level', hlevel'⟩ := Level.exists_branches_eq
    (List.cons_ne_nil (test' :: changedYes yes) (no.map (changedNo yes)).toList)
  have htext : branchesText level'.branches =
      test'.render ++ branchesText (changedYes yes :: (no.map (changedNo yes)).toList) := by
    have happend := branchesText_append [test'] (changedYes yes) (no.map (changedNo yes)).toList
    rw [renderAll_cons, renderAll_nil, List.append_nil, List.singleton_append] at happend
    rw [hlevel', happend]
  have hnode : (Node.conditional condition (branchNode yes) (no.map branchNode) no.isSome
      testIsConstruct {}).reread =
        .conditional condition.reread (branchNode (changedYes yes))
          ((no.map (changedNo yes)).map branchNode) (no.map (changedNo yes)).isSome
          (condition.reread.testIsConstruct test') {} := by
    rw [reread_conditional, branchNode_changedYes, testIsConstruct_eq htest.tested,
      Option.isSome_map, Option.map_map, Option.map_map]
    simp only [Function.comp_def, branchNode_changedNo]
  refine ⟨level', inside', ?_, hleave, ?_, ?_, ?_⟩
  · rw [htext, hlevel', List.append_assoc]
    exact hread
  · exact conditional_opening_eq_ok.2 ⟨test', changedYes yes, no.map (changedNo yes), hlevel',
      conditionalNode_eq_ok.2 ⟨_, htest.tested, hnode⟩⟩
  · rw [hnode, htext, htoken, Node.render_conditional, htest.written]
    cases no <;> simp [branchesText, renderBranches, render_branchNode, groupedWhen, Token.text]
  · rw [Lead.FitsBefore, htoken, htext, List.append_assoc]
    exact hstarts

/-- A conditional is read as the changed conditional. -/
theorem GroupAt.bodyRereads_conditional {n : Nat} (hbelow : RereadsBelow g n)
    (hgroups : GroupsRereadBelow g n) (hlen : t.length < n + 1)
    (h : GroupAt g f t lead .conditional level inside a node)
    (hp : node.Every (·.testsMode = false)) : BodyRereads g f lead .conditional inside node := by
  have htoken : lead.token = .openConditional := by
    have ho := h.opens
    cases ht : lead.token <;> rw [ht] at ho <;> first | rfl | cases ho
  have hstarts : StartsTest lead.rest := startsTest_of_readLead h.read htoken
  obtain ⟨test, yes, no, condition, hlevel, hcond, hmarked, hplain, rfl⟩ :=
    h.exists_conditional hp
  have hbody := h.body
  rw [hlevel] at hbody
  obtain ⟨after, b, htest, hrest⟩ := hbody.exists_test hstarts
  have hlen₁ := Lead.rest_length h.read
  have hlen₂ := htest.length_lt
  obtain ⟨test', htest'⟩ := htest.exists_rereads hgroups (by omega) hstarts hcond hmarked
  obtain ⟨inside', hleave, hbranches⟩ :=
    exists_reads_branches hbelow (by omega) htest.settle hrest hplain
  exact htest'.bodyRereads _ htoken (hleave f) hbranches

end Conditionals

end RegexAnatomy
