import RegexAnatomy.Proofs.Assembly.Labels
import RegexAnatomy.Proofs.Groups
import RegexAnatomy.Proofs.Reading.Word

/-! References to groups. A reference may stand in front of the group that it names,
so the text is cut up without looking at it, and whether there is such a group is
asked of the table of all groups when the tree is put together: by a test of a
conditional, by a named reference, by the digits of a numeric escape or the octal
digits in front of them, and by a group for the name that it declares. What gets
into the tree denotes a group that the table lists. -/

namespace RegexAnatomy

inductive Mention where
  /-- A conditional tests the group. -/
  | test (id : GroupId)
  /-- A reference, as it is written. -/
  | reference (text : Text)
  /-- An opener declares the name, which stands for the group. -/
  | capture (name : Text) (id : Option GroupId)
  deriving DecidableEq

/-- The name that an opener declares. One that it releases stands behind a hyphen. -/
def declaredName : Text → Option Text
  | '(' :: '?' :: mark :: rest =>
    let name := rest.takeWhile isWordChar
    if (mark = '<' ∨ mark = '\x27') ∧ name ≠ [] then some name else none
  | _ => none

inductive Refers : Text → Text → Prop
  | number {digits : Text} (h : isNumeral digits) : Refers ('\\' :: digits) digits
  | angled (name : Text) : Refers ('\\' :: 'k' :: '<' :: name ++ ['>']) name
  | quoted (name : Text) : Refers ('\\' :: 'k' :: '\x27' :: name ++ ['\x27']) name

def Node.mention? : Node → Option Mention
  | .atom text .backreference (some true) => some (.reference text)
  | .sequence _ _ (.construct opener capture _) _ =>
    (declaredName opener).map fun name => .capture name capture
  | .conditional (.group id) .. => some (.test id)
  | _ => none

def Node.mentions (tree : Node) : List Mention := tree.labels Node.mention?

theorem labelling_mention? : Labelling Node.mention? where
  plain _ kind := by cases kind <;> rfl
  sequence _ _ wrapping _ := by cases wrapping <;> rfl
  bare := rfl
  nonCapturing := rfl
  alternation _ := rfl
  group _ _ _ _ _ _ := rfl
  expression _ _ _ _ _ _ := rfl

def Mention.ResolvesIn (g : GroupTable) : Mention → Prop
  | .test id => g.Lists id
  | .reference text => ∃ id, Refers text id.token ∧ g.Lists id
  | .capture name id => ∃ found ∈ id, found.token = name ∧ g.Lists found

section Reading

variable {t rest : Text} {lead : Lead}

/-- What is read of names: an opener declares the name that its group captures under, no name starts
with a digit unless it is the number of a group, and a named reference is written with its name. -/
def Token.WellNamed : Token → Prop
  | .openGroup opener => declaredName opener.text = opener.capture ∧
      ∀ name ∈ opener.capture, startsWithDigit name → isGroupNumber name
  | .namedReference text name => Refers text name
  | _ => True

theorem declaredName_of_ne_mark {mark : Char} (h : mark ≠ '<' ∧ mark ≠ '\x27') :
    declaredName ('(' :: '?' :: mark :: rest) = none := by
  simp [declaredName, h]

theorem declaredName_of_mark {mark : Char} {name : Option Text} (h : mark = '<' ∨ mark = '\x27')
    (hname : ∀ n ∈ name, IsWord n) (hrest : ∀ c ∈ rest.head?, isWordChar c = false) :
    declaredName ('(' :: '?' :: mark :: (name.getD [] ++ rest)) = name := by
  cases name with
  | none =>
    have hnil : rest.takeWhile isWordChar = [] :=
      (takeWhile_append_exact (List.forall_mem_nil _) hrest).1
    simp [declaredName, hnil]
  | some name =>
    obtain ⟨hne, hword⟩ := hname name rfl
    simp [declaredName, h, hne, takeWhile_append_exact hword hrest]

theorem readNamedOpener_wellNamed {mark close : Char} (hmark : mark = '<' ∨ mark = '\x27')
    (hclose : isWordChar close = false) (h : readNamedOpener mark close t = .ok lead) :
    lead.token.WellNamed := by
  obtain ⟨capture, u, balance, rest, _, hc, -, rfl, -, rfl⟩ := readNamedOpener_eq_ok.1 h
  refine ⟨?_, fun name hname => ?_⟩
  · show declaredName ('(' :: '?' :: mark :: (capture.getD [] ++ _ ++ [close])) = capture
    rw [List.append_assoc]
    refine declaredName_of_mark hmark (fun name hname => ?_) fun c hc => ?_
    · obtain rfl : capture = some name := hname
      exact readGroupName_isWord hc
    · cases balance with
      | none =>
        obtain rfl : close = c := Option.some.inj hc
        exact hclose
      | some =>
        obtain rfl : '-' = c := Option.some.inj hc
        rfl
  · obtain rfl : capture = some name := hname
    obtain ⟨-, -, -, hnumber⟩ := readGroupName_eq_ok.1 hc
    exact hnumber

theorem readOptions_wellNamed {c : Char} (hc : isOptionChar c)
    (h : readOptions (c :: t) = .ok lead) : lead.token.WellNamed := by
  have hmark : c ≠ '<' ∧ c ≠ '\x27' := by
    constructor <;> rintro rfl <;> cases hc
  obtain ⟨letters, rest, -, ⟨-, rfl⟩ | ⟨ht, rfl⟩⟩ := readOptions_eq_ok.1 h
  · trivial
  cases letters with
  | nil =>
    cases ht
    cases hc
  | cons d letters =>
    obtain ⟨rfl, -⟩ := List.cons.inj ht
    exact ⟨declaredName_of_ne_mark hmark, by simp⟩

theorem readConstruct_wellNamed (h : readConstruct t = .ok lead) : lead.token.WellNamed := by
  have nameless : ∀ sign ∈ groupSigns, declaredName ('(' :: '?' :: sign) = none := by decide
  cases behindQuestion_of_readConstruct h with
  | sign hsign => exact ⟨nameless _ hsign, by simp⟩
  | angled _ h => exact readNamedOpener_wellNamed (.inl rfl) rfl h
  | quoted h => exact readNamedOpener_wellNamed (.inr rfl) rfl h
  | options hc h => exact readOptions_wellNamed hc h
  | conditional => trivial

theorem readLiteral_wellNamed {free : Bool} (h : readLiteral free t = .ok lead) :
    lead.token.WellNamed := by
  obtain ⟨unit, rest, -, ⟨-, rfl⟩ | ⟨-, rfl⟩⟩ := readLiteral_eq_ok.1 h <;> trivial

theorem readEscape_wellNamed {free : Bool} (h : readEscape free t = .ok lead) :
    lead.token.WellNamed := by
  cases behindBackslash_of_readEscape h with
  | angled name => exact .angled name
  | quoted name => exact .quoted name
  | literal hliteral => exact readLiteral_wellNamed hliteral
  | _ => trivial

theorem readLead_wellNamed {ctx : Context} (h : readLead ctx t = .ok (some lead)) :
    lead.token.WellNamed := by
  cases atFront_of_readLead h with
  | construct h => exact readConstruct_wellNamed h
  | escape h => exact readEscape_wellNamed h
  | literal _ h => exact readLiteral_wellNamed h
  | _ => trivial

theorem wellNamed_blocksOf {pattern : Text} {stream : Stream} (h : blocksOf pattern = .ok stream) :
    ∀ b ∈ stream.blocks, b.token.WellNamed :=
  forall_mem_blocksOf trivial (fun _ _ _ => readLead_wellNamed) h

theorem wellNamed_of_mem_names {pattern name : Text} {stream : Stream}
    (h : blocksOf pattern = .ok stream) (hname : name ∈ stream.names) :
    ∃ opener : GroupOpener, opener.capture = some name ∧ (Token.openGroup opener).WellNamed := by
  obtain ⟨b, hb, opener, ht, hcapture⟩ := exists_opener_of_mem_names h hname
  exact ⟨opener, hcapture, ht ▸ wellNamed_blocksOf h b hb⟩

/-- No name starts with a digit unless it is the number of a group. -/
theorem isGroupNumber_of_mem_names {pattern : Text} {stream : Stream}
    (h : blocksOf pattern = .ok stream) :
    ∀ name ∈ stream.names, startsWithDigit name → isGroupNumber name := by
  intro name hname
  obtain ⟨opener, hcapture, -, hnumber⟩ := wellNamed_of_mem_names h hname
  exact hnumber name hcapture

theorem isWord_of_declaredName {name : Text} (h : declaredName t = some name) : IsWord name := by
  unfold declaredName at h
  split at h
  · dsimp only at h
    split at h <;> cases h
    next hname => exact ⟨hname.2, fun _ => List.mem_takeWhile_imp⟩
  · cases h

/-- Every group is called by a word. -/
theorem names_isWord {pattern : Text} {stream : Stream} (h : blocksOf pattern = .ok stream) :
    ∀ name ∈ stream.names, IsWord name := by
  intro name hname
  obtain ⟨opener, hcapture, hdeclared, -⟩ := wellNamed_of_mem_names h hname
  exact isWord_of_declaredName (hdeclared.trans hcapture)

end Reading

section Assembled

variable {g : GroupTable}

structure GroupTable.Resolves (g : GroupTable) : Prop where
  known : ∀ token, g.knows token → (g.resolve token).isSome
  nil : g.resolve [] = none

theorem GroupTable.Resolves.reference (hg : g.Resolves) {text token : Text}
    (ht : Refers text token) (hk : g.knows token) : (Mention.reference text).ResolvesIn g := by
  obtain ⟨id, hid⟩ := Option.isSome_iff_exists.1 (hg.known token hk)
  refine ⟨id, ?_, GroupTable.lists_of_resolve hid⟩
  rwa [GroupTable.resolve_token hid]

theorem GroupTable.Resolves.isNumeral (hg : g.Resolves) {digits : Text}
    (hd : ∀ c ∈ digits, c.isDigit) (hk : g.knows digits) : isNumeral digits := by
  have hne : digits ≠ [] := by
    -- the table does not look at whether there are digits at all
    rintro rfl
    have hnil := hg.known [] hk
    rw [hg.nil] at hnil
    cases hnil
  simpa [RegexAnatomy.isNumeral, hne] using hd

theorem mentions_reference (text : Text) (isReference : Bool) :
    (Node.reference text isReference).mentions =
      if isReference then [.reference text] else [] := by
  rw [Node.mentions, Node.labels_eq]
  cases isReference <;> rfl

theorem Block.Yields.mentions_resolve {b : Block} {nodes : List Node} (h : b.Yields g nodes)
    (hg : g.Resolves) (hn : b.token.WellNamed) :
    ∀ m ∈ nodes.flatMap Node.mentions, m.ResolvesIn g := by
  have hplain (text : Text) (kind : AtomKind) : (Node.plain text kind).mentions = [] :=
    labels_plain labelling_mention? text kind
  have hquantify (node : Node) : (quantify node b.suffix).flatMap Node.mentions = node.mentions :=
    labels_quantify labelling_mention? node b
  have hquantifyTail (head : Node) (tail : Text) :
      (quantifyTail head tail b.suffix).flatMap Node.mentions = head.mentions :=
    labels_quantifyTail labelling_mention? head tail b
  cases h with
  | layout => simp
  | options => simp [hplain]
  | atom h =>
    rw [hquantify]
    cases ht : b.token <;> rw [ht] at h <;> cases h <;> simp [hplain, Node.literal]
  | reference h hk =>
    rw [h] at hn
    rw [hquantify, mentions_reference, if_pos rfl]
    exact List.forall_mem_singleton.2 (hg.reference hn hk)
  | @escape text _ h hescape =>
    obtain ⟨isReference, tail, -, hknows, rfl⟩ := numericEscapeNodes_eq hescape
    obtain ⟨digits, hhead, hdigits⟩ := g.exists_digits_of_escapeHead text
    rw [hquantifyTail, mentions_reference, hhead]
    split
    next hreference =>
      have hk : g.knows digits := by simpa [hhead] using hknows hreference
      exact List.forall_mem_singleton.2 (hg.reference (.number (hg.isNumeral hdigits hk)) hk)
    · simp

theorem Opening.mentions_resolve {opener : Block} {opening : Opening} {start : Nat} {level : Level}
    {node : Node} (ho : opener.token.opening? = some opening)
    (hn : opening.node g start level = .ok node) (hnamed : opener.token.WellNamed)
    (hdeclared : ∀ name ∈ opener.token.names, (g.resolve name).isSome)
    (hinner : ∀ m ∈ level.branches.flatMap (·.flatMap Node.mentions), m.ResolvesIn g) :
    ∀ m ∈ node.mentions, m.ResolvesIn g := by
  have hwrapped (wrapping : Wrapping) : ((bodyNode level.branches).wrapped wrapping).mentions =
      wrapping.labels Node.mention? ++ level.branches.flatMap (·.flatMap Node.mentions) :=
    labels_wrapped_bodyNode labelling_mention? wrapping level.branches
  cases ht : opener.token <;> rw [ht] at ho <;> cases ho
  case openParen capture =>
    cases hn
    rw [hwrapped]
    exact hinner
  case openGroup opener' =>
    rw [ht] at hnamed hdeclared
    cases hn
    rw [hwrapped, List.forall_mem_append]
    refine ⟨fun m hm => ?_, hinner⟩
    obtain ⟨name, hname, rfl⟩ := Option.map_eq_some_iff.1 (Option.mem_toList.1 hm)
    -- the name in the text of the opener is the one that was looked up
    have hcapture : opener'.capture = some name := hnamed.1 ▸ hname
    obtain ⟨id, hid⟩ :=
      Option.isSome_iff_exists.1 (hdeclared name (Option.mem_toList.2 hcapture))
    exact ⟨id, by rw [hcapture]; exact hid, GroupTable.resolve_token hid,
      GroupTable.lists_of_resolve hid⟩
  case openConditional =>
    obtain ⟨test, yes, no, condition, hlevel, hcondition, hlabels⟩ :=
      labels_conditional_node labelling_mention? hn
    rw [hlevel, List.flatMap_cons, List.flatMap_cons, List.forall_mem_append,
      List.forall_mem_append] at hinner
    obtain ⟨⟨htest, hyes⟩, hno⟩ := hinner
    have hc : ∀ m ∈ condition.labels Node.mention?, m.ResolvesIn g := by
      cases condition with
      | group id =>
        obtain ⟨token, -, hid⟩ := testCondition_group hcondition
        exact List.forall_mem_singleton.2 (GroupTable.lists_of_resolve hid)
      | expression marked =>
        rw [testCondition_expression hcondition, Condition.labels,
          labels_markTest labelling_mention?]
        exact htest
    rw [Node.mentions, hlabels, List.forall_mem_append, List.forall_mem_append]
    exact ⟨⟨hc, hyes⟩, hno⟩

/-- What is put together from blocks names groups that are there. -/
theorem Assembles.mentions_resolve {bs : List Block} {branches : List (List Node)}
    (h : Assembles g bs branches) (hg : g.Resolves) (hn : ∀ b ∈ bs, b.token.WellNamed)
    (hdeclared : ∀ b ∈ bs, ∀ name ∈ b.token.names, (g.resolve name).isSome) :
    ∀ m ∈ branches.flatMap (·.flatMap Node.mentions), m.ResolvesIn g := by
  have loose (b : Block) : b.loose.flatMap Node.mentions = [] := labels_loose labelling_mention? b
  induction h with
  | nil => simp
  | @leaf b nodes bs branch branches hb h ih =>
    have ih := ih (List.forall_mem_cons.1 hn).2 (List.forall_mem_cons.1 hdeclared).2
    have hnodes := hb.mentions_resolve hg (hn b (by simp))
    simp only [List.flatMap_cons, List.flatMap_append, loose, List.append_nil,
      List.forall_mem_append] at ih ⊢
    exact ⟨⟨hnodes, ih.1⟩, ih.2⟩
  | bar hb h ih =>
    exact ih (List.forall_mem_cons.1 hn).2 (List.forall_mem_cons.1 hdeclared).2
  | @group opener closer opening inner bs level node branch branches ho hi hc hnode h ihi ih =>
    have ihi := ihi (fun b hb => hn b (by simp [hb])) fun b hb => hdeclared b (by simp [hb])
    have ih := ih (fun b hb => hn b (by simp [hb])) fun b hb => hdeclared b (by simp [hb])
    have hgroup : ∀ m ∈ node.mentions, m.ResolvesIn g :=
      Opening.mentions_resolve ho hnode (hn opener (by simp)) (hdeclared opener (by simp)) ihi
    have hquantify : (quantify node closer.suffix).flatMap Node.mentions = node.mentions :=
      labels_quantify labelling_mention? node closer
    simp only [List.flatMap_cons, List.flatMap_append, hquantify, loose, List.append_nil,
      List.forall_mem_append] at ih ⊢
    exact ⟨⟨hgroup, ih.1⟩, ih.2⟩

end Assembled

/-- Every group that an accepted pattern names, by a test, a reference or a name that it declares,
is a group of the pattern. -/
theorem mentions_read {style : Style} {pattern : Text} {read : Pattern}
    (h : Pattern.read style pattern = .ok read) :
    ∀ m ∈ read.root.mentions, m.ResolvesIn read.groups := by
  obtain ⟨⟨tree, groups⟩, htree, h⟩ := bind_eq_ok.1 h
  cases h
  obtain ⟨stream, branches, hs, rfl, hA, rfl⟩ := exists_assembles_of_readTree htree
  have hg : (GroupTable.ofCaptures stream.captures stream.names).Resolves :=
    ⟨fun _ => resolve_isSome_of_knows (isGroupNumber_of_mem_names hs),
      resolve_nil (names_ne_nil hs)⟩
  have hdeclared : ∀ b ∈ stream.blocks, ∀ name ∈ b.token.names,
      ((GroupTable.ofCaptures stream.captures stream.names).resolve name).isSome := by
    intro b hb name hname
    refine hg.known name (knows_of_mem ?_)
    rw [names_blocksOf hs]
    exact List.mem_flatMap.2 ⟨b, hb, hname⟩
  rw [Node.mentions, labels_portable labelling_mention?, labels_bodyNode labelling_mention?]
  exact hA.mentions_resolve hg (wellNamed_blocksOf hs) hdeclared

/-- A test, a named reference and a number in front of the groups that they name, a number that is
written with a zero in front where it is declared, and a number that is taken for its first digit
only. -/
def mentioningPattern : Text := "(?(b)\\k'a'|\\2)(?<a>x)(?<07>y)(?<b-a>z)(w)\\18\\7".toList

def mentioned : List Mention :=
  [.test ⟨['b'], 3, some ['3']⟩, .reference "\\k'a'".toList, .reference "\\2".toList,
    .capture ['a'] (some ⟨['a'], 2, some ['2']⟩), .capture ['0', '7'] (some ⟨['0', '7'], 7, none⟩),
    .capture ['b'] (some ⟨['b'], 3, some ['3']⟩), .reference "\\1".toList,
    .reference "\\7".toList]

theorem mentions_read_mentioningPattern :
    ∃ read, Pattern.read .restructure mentioningPattern = .ok read ∧
      read.root.mentions = mentioned ∧ ∀ m ∈ mentioned, m.ResolvesIn read.groups := by
  have hread : (Pattern.read .restructure mentioningPattern).toOption.map
      (fun read => read.root.mentions) = some mentioned := by decide +kernel
  cases hp : Pattern.read .restructure mentioningPattern with
  | error e => rw [hp] at hread; cases hread
  | ok read =>
    rw [hp] at hread
    have hmentions : read.root.mentions = mentioned := Option.some.inj hread
    exact ⟨read, rfl, hmentions, fun m hm => mentions_read hp m (hmentions ▸ hm)⟩

end RegexAnatomy
