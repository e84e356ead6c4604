import RegexAnatomy.Proofs.Accepted
import RegexAnatomy.Proofs.Block.Literals
import RegexAnatomy.Proofs.Block.Places

/-! Where a pattern is said to be wrong. The position of an error is worked out of what
each stage has at hand: the text that is still unread, the start of an open scope,
the span of a block, or the start of a conditional that is closed much later. Each of
these is the length of a front part of the pattern, and the text behind it shows what
the error is about. A reference to no group is the exception, for its position is
where the reference ends: the digits of a numeric escape share their block with
literal text, and it is the block that the position is past. -/

namespace RegexAnatomy

/-- The token of the block is what the text goes on with behind `before`. -/
structure Block.StandsAt (pattern before behind : Text) (outer inside : List Block) (b : Block) :
    Prop where
  blocks : (cutPattern pattern).blocks = outer ++ b :: inside
  before : before = outer.flatMap Block.text
  behind : b.token.text <+: behind

/-- What stands at the place of an error, between the text before it and the text behind it. Where
a reference to no group ends, anything may stand. -/
def PatternError.Shows (pattern before behind : Text) : PatternError → Prop
  | .malformed _ .unmatchedClose =>
    [')'] <+: behind ∧ before = (cutPattern pattern).blocks.flatMap Block.text ∧
      openers (cutPattern pattern).blocks = []
  | .malformed _ .unclosedGroup =>
    (cutPattern pattern).stop = none ∧ ∃ outer, ∃ opener : Block, ∃ inside,
      opener.StandsAt pattern before behind outer inside ∧ opener.token.opening?.isSome ∧
        openers (outer ++ opener :: inside) = opener :: openers outer
  | .malformed _ cause => cause.Shows behind
  | .undefinedGroup .. => True
  | .badNumericEscape _ c => ['\\'] <:+ before ∧ [c] <+: behind
  | .tooManyBranches _ =>
    ['(', '?', '('] <+: behind ∧ ∃ outer, ∃ opener : Block, ∃ inside,
      opener.StandsAt pattern before behind outer inside ∧ opener.token = .openConditional ∧
        1 < directBars 0 inside
  | .brokenInvariant _ => False

/-- The error is placed between two characters of the pattern, where what it is about stands. -/
def PatternError.PointsInto (pattern : Text) (error : PatternError) : Prop :=
  ∃ before behind, pattern = before ++ behind ∧ error.position = some (utf8Length before) ∧
    error.Shows pattern before behind

/-- A reference to a group as it is written, in the test of a conditional up to the name's end. -/
inductive WritesReference (group : Text) : Text → Prop
  | refers {reference : Text} (h : Refers reference group) : WritesReference group reference
  | test : WritesReference group ('(' :: '?' :: '(' :: group)

/-- Literal text that is cut off in one block with the numeric escape in front of it. -/
def SharesBlock (pattern front reference literal : Text) : Prop :=
  IsLiteralUnits literal ∧ ∃ outer b rest, (cutPattern pattern).blocks = outer ++ b :: rest ∧
    front = outer.flatMap Block.text ∧ b.token = .numericEscape (reference ++ literal)

/-- Byte `position` is where a reference to the group ends, or where the literal text ends that the
reference shares its block with. -/
def EndsReference (pattern : Text) (position : Nat) (group : Text) : Prop :=
  ∃ front reference literal behind, pattern = front ++ (reference ++ literal ++ behind) ∧
    position = utf8Length (front ++ (reference ++ literal)) ∧ WritesReference group reference ∧
      (literal ≠ [] → SharesBlock pattern front reference literal)

section Cutting

variable {pattern : Text} {error : PatternError}

theorem PatternError.Shows.of_malformation {before behind : Text} {cause : Malformation}
    (h : cause.Shows behind) (position : Nat) :
    (PatternError.malformed position cause).Shows pattern before behind := by
  cases cause with
  | unclosedGroup | unmatchedClose => exact h.elim
  | _ => exact h

/-- Where the cutting stops stands what it stops for. -/
theorem pointsInto_of_stop (h : (cutPattern pattern).stop = some error) :
    error.PointsInto pattern := by
  obtain ⟨fault, hfault, rfl⟩ := Cursor.exists_fault_of_cut h
  have hcuts := Cursor.cuts_cut { unread := pattern }
  have htext := hcuts.text
  have hposition : (Cursor.cut { unread := pattern }).last.position =
      utf8Length ((cutPattern pattern).blocks.flatMap Block.text) := by
    rw [hcuts.position]
    exact Nat.zero_add _
  rw [hposition]
  have of_rear {cause : Malformation} {found : Text}
      (hfound : found <:+ (cutPattern pattern).last.unread) (hshows : cause.Shows found) :
      (Fault.locate (utf8Length ((cutPattern pattern).blocks.flatMap Block.text))
        (cutPattern pattern).last.unread (.malformed cause found)).PointsInto pattern := by
    obtain ⟨front, hfront⟩ := hfound
    rw [← hfront, locate_eq]
    refine ⟨(cutPattern pattern).blocks.flatMap Block.text ++ front, found, ?_, rfl,
      .of_malformation hshows _⟩
    rw [List.append_assoc, hfront]
    exact htext.symm
  cases Cursor.next_metAt hfault with
  | misspelled hmisspells =>
    obtain ⟨hfound, hshows, -⟩ := hmisspells
    exact of_rear hfound hshows
  | dangling hquantifier hc => exact of_rear (List.suffix_refl _) hc
  | unmatched hclose hinside =>
    have hscopes : (Cursor.cut { unread := pattern }).last.scopes = [] := by
      simpa [Cursor.context] using hinside
    have hopens := Cursor.opens_of_cuts hcuts
    rw [Cursor.Opens, hscopes] at hopens
    refine ⟨(cutPattern pattern).blocks.flatMap Block.text, _, htext.symm, ?_, hclose, rfl,
      List.map_eq_nil_iff.1 hopens.symm⟩
    simp [Fault.locate, Fault.found, PatternError.position]

theorem exists_standsAt {outer inside : List Block} {b : Block}
    (h : (cutPattern pattern).blocks = outer ++ b :: inside) (hb : b.token ≠ .layout) :
    ∃ before behind, pattern = before ++ behind ∧ b.span.start = utf8Length before ∧
      b.StandsAt pattern before behind outer inside := by
  obtain ⟨tail, hpattern, hspan⟩ := exists_place h hb
  exact ⟨_, _, hpattern, by rw [hspan], h, rfl, List.prefix_append _ _⟩

/-- A group that is never closed is pointed to at its opener. -/
theorem pointsInto_of_unclosed {scope : Scope} {scopes : List Scope}
    (hstop : (cutPattern pattern).stop = none)
    (hscopes : (cutPattern pattern).last.scopes = scope :: scopes) :
    (PatternError.malformed scope.start .unclosedGroup).PointsInto pattern := by
  have hopens : (cutPattern pattern).last.Opens (openers (cutPattern pattern).blocks) :=
    Cursor.opens_of_cuts (Cursor.cuts_cut { unread := pattern })
  rw [Cursor.Opens, hscopes] at hopens
  obtain ⟨opener, opened, hopeners, hstart, -⟩ := List.map_eq_cons_iff.1 hopens.symm
  obtain ⟨outer, inside, hblocks, rfl, hopening⟩ := exists_of_openers_eq [] hopeners
  have hlayout : opener.token ≠ .layout := by
    intro ht
    rw [ht] at hopening
    cases hopening
  obtain ⟨before, behind, hpattern, hspan, hstands⟩ := exists_standsAt hblocks hlayout
  refine ⟨before, behind, hpattern, ?_, hstop, outer, opener, inside, hstands, hopening, ?_⟩
  · rw [← hspan, hstart]
    rfl
  · rw [← hblocks, hopeners]

theorem pointsInto_of_blocksOf (h : blocksOf pattern = .error error) :
    error.PointsInto pattern := by
  simp only [blocksOf] at h
  split at h <;> cases h
  next hstop => exact pointsInto_of_stop hstop
  next hstop hscopes => exact pointsInto_of_unclosed hstop hscopes

end Cutting

section Building

variable {style : Style} {pattern text token : Text} {stream : Stream} {g : GroupTable}
  {before after : List Block} {b : Block} {error : PatternError}

theorem blocks_blocksOf (h : blocksOf pattern = .ok stream) :
    (cutPattern pattern).blocks = stream.blocks := by
  simp only [blocksOf] at h
  split at h <;> cases h
  rfl

theorem endsReference_of_name {name : Text} (hs : blocksOf pattern = .ok stream)
    (hsplit : stream.blocks = before ++ b :: after) (ht : b.token = .namedReference text name) :
    EndsReference pattern b.span.stop name := by
  obtain ⟨tail, hpattern, hspan⟩ := exists_place ((blocks_blocksOf hs).trans hsplit) (by simp [ht])
  have hnamed := wellNamed_blocksOf hs b (by simp [hsplit])
  rw [ht] at hpattern hspan hnamed
  refine ⟨before.flatMap Block.text, text, [], tail, ?_, ?_, .refers hnamed, absurd rfl⟩
  · rw [List.append_nil]
    exact hpattern
  · rw [List.append_nil, hspan]
    rfl

/-- The block of a numeric escape ends behind the literal text in it. -/
theorem endsReference_of_escape (hs : blocksOf pattern = .ok stream)
    (hsplit : stream.blocks = before ++ b :: after) (ht : b.token = .numericEscape text) :
    EndsReference pattern b.span.stop ((text.drop 1).takeWhile Char.isDigit) := by
  have hblocks := (blocks_blocksOf hs).trans hsplit
  obtain ⟨tail, hpattern, hspan⟩ := exists_place hblocks (by simp [ht])
  obtain ⟨free, digits, literal, rfl, hne, hdigits, hunits, hend⟩ :=
    holdsUnits_blocksOf hs b (by simp [hsplit]) text ht
  have htake : (digits ++ literal).takeWhile Char.isDigit = digits :=
    (takeWhile_append_exact hdigits hend).1
  have hnumeral : isNumeral digits := by
    simpa [isNumeral, hne] using hdigits
  rw [List.drop_one, List.tail_cons, htake]
  refine ⟨before.flatMap Block.text, '\\' :: digits, literal, tail, ?_, ?_,
    .refers (.number hnumeral), fun _ =>
      ⟨hunits.isLiteralUnits, before, b, after, hblocks, rfl, ht⟩⟩
  · rw [hpattern, ht]
    rfl
  · rw [hspan, ht]
    rfl

/-- The position is counted from where the conditional starts, which takes the name to follow its
parenthesis. -/
theorem endsReference_of_test (hs : blocksOf pattern = .ok stream)
    (hsplit : stream.blocks = before ++ b :: after) (hb : b.token = .openConditional)
    (htest : testLiteral? after = some token) :
    EndsReference pattern (b.span.start + 3 + utf8Length token) token := by
  obtain ⟨paren, word, close, more, capture, rfl, hparen, -, -, hword⟩ :=
    testLiteral?_eq_some.1 htest
  have htoken := (bareLiteral?_eq_some.1 hword).1
  have hr := blocksOf_regular hs
  have hopener : b.text = ['(', '?'] := by
    rw [(hr b (by simp [hsplit])).text_of_standsAlone (by rw [hb]; trivial), hb]
    rfl
  have hparenText : paren.text = ['('] := by
    rw [(hr paren (by simp [hsplit])).text_of_standsAlone (by rw [hparen]; trivial), hparen]
    rfl
  have hblocks := (blocks_blocksOf hs).trans hsplit
  obtain ⟨-, -, hspan⟩ := exists_place hblocks (by simp [hb])
  rw [List.append_cons, List.append_cons] at hblocks
  obtain ⟨tail, hpattern, -⟩ := exists_place hblocks (by simp [htoken])
  refine ⟨before.flatMap Block.text, '(' :: '?' :: '(' :: token, [], tail, ?_, ?_, .test,
    absurd rfl⟩
  · rw [hpattern, htoken]
    simp [hopener, hparenText, Token.text]
  · have hlength : utf8Length ('(' :: '?' :: '(' :: token) = 3 + utf8Length token :=
      utf8Length_append ['(', '?', '('] token
    have hstart : b.span.start = utf8Length (before.flatMap Block.text) := by rw [hspan]
    rw [hstart, List.append_nil, utf8Length_append, hlength, Nat.add_assoc]

theorem RefusedFor.endsReference {position : Nat} {group : Text}
    (hs : blocksOf pattern = .ok stream)
    (h : RefusedFor g stream.blocks (.undefinedGroup position group)) :
    EndsReference pattern position group := by
  cases h with
  | name hsplit ht => exact endsReference_of_name hs hsplit ht
  | number hsplit ht => exact endsReference_of_escape hs hsplit ht
  | test hsplit ht htest => exact endsReference_of_test hs hsplit ht htest

/-- A reference to no group is one that the table does not know. -/
theorem RefusedFor.undefined {position : Nat} {group : Text} (hs : blocksOf pattern = .ok stream)
    (h : RefusedFor (GroupTable.ofCaptures stream.captures stream.names) stream.blocks
      (.undefinedGroup position group)) :
    (GroupTable.ofCaptures stream.captures stream.names).knows group = false := by
  cases h with
  | name _ _ hg => exact hg
  | number _ _ hg => exact eq_false_of_ne_true fun hknows => hg (.inr (.inl hknows))
  | test _ _ _ _ hg =>
    refine eq_false_of_ne_true fun hknows => ?_
    have hsome := resolve_isSome_of_knows (isGroupNumber_of_mem_names hs) hknows
    rw [hg] at hsome
    cases hsome

theorem EndsReference.pointsInto {position : Nat} {group : Text}
    (h : EndsReference pattern position group) :
    (PatternError.undefinedGroup position group).PointsInto pattern := by
  obtain ⟨front, reference, literal, behind, hpattern, hposition, -⟩ := h
  refine ⟨front ++ (reference ++ literal), behind, ?_, congrArg some hposition, trivial⟩
  rw [hpattern, List.append_assoc front]

theorem pointsInto_of_escape (hs : blocksOf pattern = .ok stream)
    (hsplit : stream.blocks = before ++ b :: after) (ht : b.token = .numericEscape text) :
    (PatternError.badNumericEscape (b.span.start + 1) ((text.drop 1).headD '\\')).PointsInto
      pattern := by
  obtain ⟨tail, hpattern, hspan⟩ := exists_place ((blocks_blocksOf hs).trans hsplit) (by simp [ht])
  obtain ⟨free, digits, literal, rfl, hne, -⟩ := holdsUnits_blocksOf hs b (by simp [hsplit]) text ht
  obtain ⟨c, digits, rfl⟩ := List.exists_cons_of_ne_nil hne
  refine ⟨before.flatMap Block.text ++ ['\\'], c :: (digits ++ literal) ++ tail, ?_, ?_,
    List.suffix_append _ _, List.prefix_append [c] _⟩
  · rw [hpattern, ht, List.append_assoc]
    rfl
  · have hstart : b.span.start = utf8Length (before.flatMap Block.text) := by rw [hspan]
    rw [hstart, utf8Length_append]
    rfl

/-- A conditional with too many branches is pointed to at its opener. -/
theorem pointsInto_of_branches (hs : blocksOf pattern = .ok stream)
    (hsplit : stream.blocks = before ++ b :: after) (ht : b.token = .openConditional)
    (hbars : 1 < directBars 0 after) :
    (PatternError.tooManyBranches b.span.start).PointsInto pattern := by
  have hblocks := (blocks_blocksOf hs).trans hsplit
  obtain ⟨front, behind, hpattern, hspan, hstands⟩ := exists_standsAt hblocks (by simp [ht])
  obtain ⟨tail, htest⟩ := exists_test_place hblocks ht
  refine ⟨front, behind, hpattern, congrArg some hspan, ?_, before, b, after, hstands, ht, hbars⟩
  rw [hpattern, hstands.before] at htest
  rw [List.append_cancel_left htest]
  exact List.prefix_append ['(', '?', '('] tail

/-- A pattern is refused because it cannot be cut into blocks, or for one of its blocks. -/
theorem refusedFor_of_read (h : Pattern.read style pattern = .error error) :
    blocksOf pattern = .error error ∨ ∃ stream, blocksOf pattern = .ok stream ∧
      RefusedFor (GroupTable.ofCaptures stream.captures stream.names) stream.blocks error := by
  rcases bind_eq_error.1 h with h | ⟨⟨tree, groups⟩, -, h⟩
  · rcases bind_eq_error.1 h with h | ⟨stream, hs, h⟩
    · exact .inl h
    · rcases bind_eq_error.1 h with h | ⟨root, -, h⟩
      · exact .inr ⟨stream, hs, refusedFor_of_ofBlocks hs h⟩
      · cases h
  · cases h

/-- Wherever a pattern is refused, the error points to a place in it, and to the right one. -/
theorem pointsInto_of_read (h : Pattern.read style pattern = .error error) :
    error.PointsInto pattern := by
  rcases refusedFor_of_read h with h | ⟨stream, hs, hrefused⟩
  · exact pointsInto_of_blocksOf h
  · cases hrefused with
    | name hsplit ht => exact (endsReference_of_name hs hsplit ht).pointsInto
    | number hsplit ht => exact (endsReference_of_escape hs hsplit ht).pointsInto
    | escape hsplit ht => exact pointsInto_of_escape hs hsplit ht
    | branches hsplit ht hbars => exact pointsInto_of_branches hs hsplit ht hbars
    | test hsplit ht htest => exact (endsReference_of_test hs hsplit ht htest).pointsInto

def refusal? (style : Style) (pattern : Text) : Option PatternError :=
  match Pattern.read style pattern with
  | .ok _ => none
  | .error error => some error

theorem read_of_refusal? (h : refusal? style pattern = some error) :
    Pattern.read style pattern = .error error := by
  unfold refusal? at h
  split at h <;> cases h
  assumption

def branchingPattern : Text := "é(?(a)b|c|d)".toList

/-- The escape stands in a class that is subtracted in a class that is subtracted. -/
def subtractingPattern : Text := "(?x) # é\n[a-[b-[c\\xg]]]".toList

theorem pointsInto_of_read_subtractingPattern :
    (Pattern.read .restructure branchingPattern = .error (.tooManyBranches 2) ∧
      (PatternError.tooManyBranches 2).PointsInto branchingPattern ∧
      splitAtByte branchingPattern 2 = some (['é'], "(?(a)b|c|d)".toList)) ∧
    Pattern.read .restructure subtractingPattern = .error (.malformed 18 (.badEscape 'x')) ∧
      (PatternError.malformed 18 (.badEscape 'x')).PointsInto subtractingPattern := by
  have hbranching : Pattern.read .restructure branchingPattern = .error (.tooManyBranches 2) :=
    read_of_refusal? (by decide +kernel)
  have hsubtracting : Pattern.read .restructure subtractingPattern =
      .error (.malformed 18 (.badEscape 'x')) := read_of_refusal? (by decide +kernel)
  exact ⟨⟨hbranching, pointsInto_of_read hbranching, by decide⟩, hsubtracting,
    pointsInto_of_read hsubtracting⟩

/-- A pattern that is refused for a reference has no such group, and the position is where the
reference ends, or where the literal text ends that shares a block with its digits. -/
theorem endsReference_of_read {position : Nat} {group : Text}
    (h : Pattern.read style pattern = .error (.undefinedGroup position group)) :
    EndsReference pattern position group ∧ ∃ stream, blocksOf pattern = .ok stream ∧
      (GroupTable.ofCaptures stream.captures stream.names).knows group = false := by
  rcases refusedFor_of_read h with h | ⟨stream, hs, hrefused⟩
  · obtain ⟨_, _, he⟩ := exists_malformed_of_blocksOf h
    cases he
  · exact ⟨hrefused.endsReference hs, stream, hs, hrefused.undefined hs⟩

def danglingTestPattern : Text := "(a)é(?(2)b|c)".toList

def danglingNamePattern : Text := "(?<n>a)\\k'm'b".toList

theorem endsReference_of_read_danglingPatterns :
    (Pattern.read .restructure danglingTestPattern = .error (.undefinedGroup 9 ['2']) ∧
      EndsReference danglingTestPattern 9 ['2']) ∧
    Pattern.read .restructure danglingNamePattern = .error (.undefinedGroup 12 ['m']) ∧
      EndsReference danglingNamePattern 12 ['m'] := by
  have htest : Pattern.read .restructure danglingTestPattern = .error (.undefinedGroup 9 ['2']) :=
    read_of_refusal? (by decide +kernel)
  have hname : Pattern.read .restructure danglingNamePattern = .error (.undefinedGroup 12 ['m']) :=
    read_of_refusal? (by decide +kernel)
  exact ⟨⟨htest, (endsReference_of_read htest).1⟩, hname, (endsReference_of_read hname).1⟩

def absorbingPattern : Text := "\\1a".toList

theorem absorbingPattern_misplaced :
    Pattern.read .restructure absorbingPattern = .error (.undefinedGroup 3 ['1']) ∧
      ∀ before behind reference, splitAtByte absorbingPattern 3 = some (before, behind) →
        WritesReference ['1'] reference → ¬ reference <:+ before := by
  refine ⟨read_of_refusal? (by decide +kernel), fun before behind reference hsplit hwrites => ?_⟩
  have hat : splitAtByte absorbingPattern 3 = some (absorbingPattern, []) := by decide
  obtain ⟨rfl, rfl⟩ := Prod.mk.inj (Option.some.inj (hsplit.symm.trans hat))
  cases hwrites with
  | refers hrefers => cases hrefers <;> decide
  | test => decide

end Building

end RegexAnatomy
