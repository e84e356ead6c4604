import RegexAnatomy.Proofs.Assembly.GroupTest
import RegexAnatomy.Proofs.Assembly.Labels
import RegexAnatomy.Proofs.Nesting

/-! Capture numbers in the tree. Numbers are given out as the parentheses open, and
the nodes that carry them are made as the parentheses close, are moved into branches
and wrapped, and a test that names a group goes without its parentheses. In the
order in which the nodes are written, the numbers are still those of the blocks:
what goes is a parenthesis that does not capture, and what is added captures
nothing. -/

namespace RegexAnatomy

def Wrapping.capture? : Wrapping → Option Nat
  | .bracket capture => capture
  | _ => none

def Node.capture? : Node → Option Nat
  | .sequence _ _ wrapping _ => wrapping.capture?
  | _ => none

def Node.captures (tree : Node) : List Nat := tree.labels Node.capture?

theorem labelling_capture? : Labelling Node.capture? :=
  ⟨fun _ _ => rfl, fun _ _ _ _ => rfl, rfl, rfl, fun _ => rfl, fun _ _ _ _ _ _ => rfl,
    fun _ _ _ _ _ _ => rfl⟩

section Blocks

variable {g : GroupTable} {b : Block} {bs : List Block} {branches : List (List Node)}

theorem Block.Yields.captures {nodes : List Node} (h : b.Yields g nodes) (hr : b.Regular) :
    nodes.flatMap Node.captures = [] ∧ b.token.captures = [] := by
  refine ⟨labels_yields labelling_capture? (fun _ _ _ => rfl) h hr, ?_⟩
  have hne := h.token_ne.1
  cases ht : b.token <;> rw [ht] at hne <;> first | rfl | cases hne

/-- What is tested as plain parentheses was written as plain parentheses. -/
theorem IsTest.eq_openParen {tested : List Block} {children : List Node} {quantifier : Text}
    {capture : Option Nat} {isTest : Bool}
    (h : IsTest g tested (.sequence children quantifier (.bracket capture) isTest)) :
    ∃ opener rest, tested = opener :: rest ∧ opener.token = .openParen capture := by
  cases h with
  | @group opener closer opening inner level node _ more ho hi hc hn hq =>
    obtain ⟨rfl, -⟩ := Opening.eq_bracket_of_quantify hn hq
    exact ⟨opener, inner ++ [closer], rfl, Token.eq_openParen ho⟩

/-- Nothing is captured by a test of which only the name of a group is kept. -/
theorem IsTest.captures_of_testToken {tested more : List Block} {test : Node} {token : Text}
    (h : IsTest g tested test) (hfirst : ∃ c ∈ (tested ++ more).head?, c.token.CanTest)
    (ht : testToken test = some token) : test.captures = [] := by
  unfold testToken at ht
  split at ht <;> cases ht
  next kind isReference quantifier capture isTest =>
  obtain ⟨opener, rest, rfl, hopener⟩ := h.eq_openParen
  obtain ⟨c, hc, hcapture⟩ := hfirst
  cases hc
  rw [hopener] at hcapture
  obtain rfl : capture = none := hcapture
  rfl

theorem Opening.captures_node {opener closer : Block} {opening : Opening} {inner : List Block}
    {level : Level} {node : Node} (ho : opener.token.opening? = some opening)
    (hi : Assembles g inner level.branches) (hc : closer.token = .close)
    (hn : opening.node g opener.span.start level = .ok node)
    (ht : TestsFollow (opener :: inner ++ [closer])) :
    node.captures = opener.token.captures ++ level.branches.flatMap (·.flatMap Node.captures) := by
  cases opening with
  | bracket capture =>
    rw [Token.eq_openParen ho]
    cases hn
    exact labels_wrapped_bodyNode labelling_capture? (.bracket capture) level.branches
  | group opener' =>
    cases hn
    rw [Node.captures, labels_wrapped_bodyNode labelling_capture?]
    cases htoken : opener.token <;> rw [htoken] at ho <;> cases ho
    rfl
  | conditional =>
    have htoken := Token.eq_openConditional ho
    obtain ⟨test, yes, no, condition, hlevel, hcondition, hlabels⟩ :=
      labels_conditional_node labelling_capture? hn
    have htest : condition.labels Node.capture? = test.captures := by
      cases condition with
      | expression marked =>
        rw [testCondition_expression hcondition]
        exact labels_markTest labelling_capture? true test
      | group id =>
        obtain ⟨token, htoken', -⟩ := testCondition_group hcondition
        have hfirst := ht.exists_canTest htoken hc
        obtain ⟨tested, more, first, _, _, rfl, hisTest, hbranches⟩ := hi.exists_isTest hfirst
        have hfirstBranch := (List.cons.inj (hlevel.symm.trans hbranches)).1
        obtain rfl : test = first := (List.cons.inj hfirstBranch).1
        exact (hisTest.captures_of_testToken hfirst htoken').symm
    rw [Node.captures, hlabels, htest, hlevel, htoken, List.flatMap_cons, List.flatMap_cons]
    rfl

/-- The numbers of the parentheses are kept in the order in which they open. -/
theorem Assembles.captures (h : Assembles g bs branches) (hr : ∀ b ∈ bs, b.Regular)
    (ht : TestsFollow bs) :
    branches.flatMap (·.flatMap Node.captures) = bs.flatMap (·.token.captures) := by
  induction h with
  | nil => rfl
  | @leaf b nodes bs branch branches hb h ih =>
    obtain ⟨hbr, hbs⟩ := List.forall_mem_cons.1 hr
    obtain ⟨hnodes, htoken⟩ := hb.captures hbr
    have ih := ih hbs (ht.mono (List.suffix_cons b bs).isInfix)
    have hloose : b.loose.flatMap Node.captures = [] := labels_loose labelling_capture? b
    simpa [hnodes, hloose, htoken] using ih
  | @bar b bs branches hb h ih =>
    have ih := ih (List.forall_mem_cons.1 hr).2 (ht.mono (List.suffix_cons b bs).isInfix)
    simpa [hb, Token.captures] using ih
  | @group opener closer opening inner bs level node branch branches ho hi hc hn h ihi ih =>
    have hnode := Opening.captures_node ho hi hc hn (ht.mono ⟨[], bs, by simp⟩)
    have ihi := ihi (fun b hb => hr b (by simp [hb])) (ht.mono ⟨[opener], closer :: bs, by simp⟩)
    have ih := ih (fun b hb => hr b (by simp [hb]))
      (ht.mono ⟨opener :: inner ++ [closer], [], by simp⟩)
    have hclose : closer.token.captures = [] := by rw [hc]; rfl
    have hquantify : (quantify node closer.suffix).flatMap Node.captures = node.captures :=
      labels_quantify labelling_capture? node closer
    have hloose : closer.loose.flatMap Node.captures = [] := labels_loose labelling_capture? closer
    simpa [hquantify, hloose, hnode, ihi, hclose] using ih

end Blocks

section Numbering

variable {s s₁ s' : Cursor} {before bs : List Block} {b : Block}

/-- A parenthesis captures under the number that comes next, or not at all. -/
theorem Cursor.next_captures (hn : s.next = .ok (some (b, s₁))) :
    b.token.captures = List.range' (s.captures + 1) b.token.captures.length := by
  cases ht : b.token with
  | openParen capture =>
    obtain ⟨-, lead, htoken, hl, -⟩ := Cursor.next_token hn (by simp [ht])
    rw [capture_of_openParen hl (htoken.trans ht), Context.nextCapture]
    split <;> rfl
  | _ => rfl

theorem Cursor.Cuts.captures (h : s.Cuts bs s') :
    bs.flatMap (·.token.captures) = List.range' (s.captures + 1) (captureCount bs) ∧
      s'.captures = s.captures + captureCount bs := by
  induction h with
  | nil => exact ⟨rfl, rfl⟩
  | @cons s s₁ s₂ b bs hn _ ih =>
    have hcaptures : s₁.captures = s.captures + b.token.captures.length := by
      obtain ⟨taken, rest, rfl⟩ := Cursor.next_note hn
      exact Cursor.note_captures b.token s
    have hcount : captureCount (b :: bs) = b.token.captures.length + captureCount bs := by
      simp [captureCount]
    rw [List.flatMap_cons, ih.1, Cursor.next_captures hn, ih.2, hcaptures, hcount]
    refine ⟨?_, by omega⟩
    rw [← List.range'_append_1, Nat.add_right_comm]

theorem captures_blocksOf {pattern : Text} {stream : Stream} (h : blocksOf pattern = .ok stream) :
    stream.blocks.flatMap (·.token.captures) = List.range' 1 stream.captures := by
  obtain ⟨last, hc, -, -, hcaptures, -⟩ := blocksOf_eq_ok.1 h
  obtain ⟨hnumbers, hcount⟩ := hc.captures
  rw [hnumbers, hcaptures, hcount]
  simp

end Numbering

/-- The capture numbers of a pattern's tree are those from one on, in order and without a gap. -/
theorem captures_read {style : Style} {pattern : Text} {read : Pattern}
    (h : Pattern.read style pattern = .ok read) :
    read.root.captures = List.range' 1 read.groups.plain := by
  obtain ⟨⟨tree, groups⟩, htree, h⟩ := bind_eq_ok.1 h
  cases h
  obtain ⟨stream, branches, hs, rfl, hA, rfl⟩ := exists_assembles_of_readTree htree
  have hnumbers := hA.captures (blocksOf_regular hs) (blocksOf_wellNested hs).testsFollow
  rw [captures_blocksOf hs] at hnumbers
  rw [Node.captures, labels_portable labelling_capture?, labels_bodyNode labelling_capture?]
  exact hnumbers

/-- Captures in a quantified group, in the test of a conditional, in a branch that is wrapped, and
behind options that turn captures off for a while. -/
def capturingPattern : Text := "((a)|b)*(?(2)(?i)(c)|(d))(?((e)f)g|(?n:(h)(?-n)(i)))(j)".toList

theorem captures_read_capturingPattern :
    ∃ read, Pattern.read .restructure capturingPattern = .ok read ∧ read.changed ∧
      read.groups.plain = 7 ∧ read.root.captures = [1, 2, 3, 4, 5, 6, 7] := by
  have hread : (Pattern.read .restructure capturingPattern).toOption.map
      (fun read => (read.changed, read.groups.plain)) = some (true, 7) := by decide +kernel
  cases hp : Pattern.read .restructure capturingPattern with
  | error e => rw [hp] at hread; cases hread
  | ok read =>
    rw [hp] at hread
    obtain ⟨hchanged, hplain⟩ := Prod.mk.inj (Option.some.inj hread)
    refine ⟨read, rfl, hchanged, hplain, ?_⟩
    rw [captures_read hp, hplain]
    rfl

end RegexAnatomy
