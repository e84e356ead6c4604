import RegexAnatomy.Proofs.Assembly.Tests
import RegexAnatomy.Proofs.Nesting
import RegexAnatomy.Proofs.References

/-! Which patterns are accepted. A pattern that can be cut into blocks is refused only
for what it refers to, or for a conditional with too many branches. Both are found
out while the tree is put together, the first token by token, the second when a
group closes; here they are conditions on the blocks as they stand in a row. -/

namespace RegexAnatomy

/-- The bars in the group that is open, but in no group inside it, up to where it closes; `depth`
groups are open inside it. -/
def directBars (depth : Nat) : List Block → Nat
  | [] => 0
  | b :: bs =>
    if b.token.opening?.isSome then directBars (depth + 1) bs
    else if b.token = .close then if depth = 0 then 0 else directBars (depth - 1) bs
    else if b.token = .bar ∧ depth = 0 then directBars depth bs + 1
    else directBars depth bs

/-- Digits behind a backslash that are octal, or the number of a group, or start with an octal digit
and more. -/
def IsEscapeNumber (g : GroupTable) (digits : Text) : Prop :=
  digits.head? = some '0' ∨ g.knows digits ∨
    2 ≤ digits.length ∧ ∃ c ∈ digits.head?, '1' ≤ c ∧ c ≤ '7'

/-- What the blocks refer to is there, and no conditional has more than two branches. -/
structure WellReferenced (g : GroupTable) (bs : List Block) : Prop where
  named : ∀ b ∈ bs, ∀ text name, b.token = .namedReference text name → g.knows name
  numeric : ∀ b ∈ bs, ∀ text, b.token = .numericEscape text →
    IsEscapeNumber g ((text.drop 1).takeWhile Char.isDigit)
  branches : ∀ before b after, bs = before ++ b :: after → b.token = .openConditional →
    directBars 0 after ≤ 1
  /-- A test that is one literal, and is not repeated behind trivia, has to name a group if it
  starts with a digit. -/
  tests : ∀ before b after, bs = before ++ b :: after → b.token = .openConditional →
    ∀ text ∈ testLiteral? after, startsWithDigit text → g.knows text

inductive RefusedFor (g : GroupTable) (bs : List Block) : PatternError → Prop
  | name {before after : List Block} {b : Block} {text name : Text}
      (hsplit : bs = before ++ b :: after) (ht : b.token = .namedReference text name)
      (hg : g.knows name = false) : RefusedFor g bs (.undefinedGroup b.span.stop name)
  | number {before after : List Block} {b : Block} {text : Text}
      (hsplit : bs = before ++ b :: after) (ht : b.token = .numericEscape text)
      (hg : ¬ IsEscapeNumber g ((text.drop 1).takeWhile Char.isDigit)) :
      RefusedFor g bs (.undefinedGroup b.span.stop ((text.drop 1).takeWhile Char.isDigit))
  | escape {before after : List Block} {b : Block} {text : Text}
      (hsplit : bs = before ++ b :: after) (ht : b.token = .numericEscape text)
      (hg : ¬ IsEscapeNumber g ((text.drop 1).takeWhile Char.isDigit)) :
      RefusedFor g bs (.badNumericEscape (b.span.start + 1) ((text.drop 1).headD '\\'))
  | branches {before after : List Block} {b : Block} (hsplit : bs = before ++ b :: after)
      (ht : b.token = .openConditional) (hbars : 1 < directBars 0 after) :
      RefusedFor g bs (.tooManyBranches b.span.start)
  | test {before after : List Block} {b : Block} {token : Text} (hsplit : bs = before ++ b :: after)
      (ht : b.token = .openConditional) (htest : testLiteral? after = some token)
      (hd : startsWithDigit token) (hg : g.resolve token = none) :
      RefusedFor g bs (.undefinedGroup (b.span.start + 3 + utf8Length token) token)

section Bars

variable {g : GroupTable} {b : Block} {bs : List Block} {branches : List (List Node)}

theorem directBars_opening {opening : Opening} (h : b.token.opening? = some opening) (depth : Nat)
    (bs : List Block) : directBars depth (b :: bs) = directBars (depth + 1) bs := by
  rw [directBars, h]
  rfl

theorem directBars_close (h : b.token = .close) (bs : List Block) :
    directBars 0 (b :: bs) = 0 ∧
      ∀ depth, directBars (depth + 1) (b :: bs) = directBars depth bs := by
  simp [directBars, h, Token.opening?]

theorem directBars_bar (h : b.token = .bar) (bs : List Block) :
    directBars 0 (b :: bs) = directBars 0 bs + 1 ∧
      ∀ depth, directBars (depth + 1) (b :: bs) = directBars (depth + 1) bs := by
  simp [directBars, h, Token.opening?]

theorem directBars_yields {nodes : List Node} (h : b.Yields g nodes) (depth : Nat)
    (bs : List Block) : directBars depth (b :: bs) = directBars depth bs := by
  have hbar : b.token ≠ .bar := by
    intro hb
    cases h with
    | atom h => rw [hb] at h; cases h
    | layout h | options h | reference h | escape h => cases hb.symm.trans h
  rw [directBars, h.token_ne.1]
  simp [h.token_ne.2, hbar]

/-- A group inside counts for nothing. -/
theorem Assembles.directBars_succ (h : Assembles g bs branches) (depth : Nat) (rest : List Block) :
    directBars (depth + 1) (bs ++ rest) = directBars (depth + 1) rest := by
  induction h generalizing depth rest with
  | nil => rfl
  | leaf hb h ih => rw [List.cons_append, directBars_yields hb, ih]
  | bar hb h ih => rw [List.cons_append, (directBars_bar hb _).2, ih]
  | group ho hi hc hn h ihi ih =>
    rw [List.append_assoc, List.cons_append, directBars_opening ho, ihi, List.cons_append,
      (directBars_close hc _).2, ih]

/-- There is a bar less than there are branches. -/
theorem Assembles.directBars_eq (h : Assembles g bs branches) (rest : List Block) :
    directBars 0 (bs ++ rest) + 1 = branches.length + directBars 0 rest := by
  induction h generalizing rest with
  | nil => exact Nat.add_comm _ _
  | leaf hb h ih =>
    rw [List.cons_append, directBars_yields hb, ih]
    rfl
  | bar hb h ih =>
    rw [List.cons_append, (directBars_bar hb _).1, ih, List.length_cons]
    omega
  | group ho hi hc hn h ihi ih =>
    rw [List.append_assoc, List.cons_append, directBars_opening ho, hi.directBars_succ,
      List.cons_append, (directBars_close hc _).2, ih]
    rfl

/-- All the bars of a group that closes are counted. -/
theorem Assembles.directBars_inside {closer : Block} (h : Assembles g bs branches)
    (hc : closer.token = .close) (rest : List Block) :
    directBars 0 (bs ++ closer :: rest) + 1 = branches.length := by
  rw [h.directBars_eq, (directBars_close hc rest).1]
  rfl

end Bars

section Push

variable {g : GroupTable} {b : Block} {bs before after : List Block} {a : Assembly}

theorem isOctalDigit_iff {c : Char} : isOctalDigit c ↔ c = '0' ∨ '1' ≤ c ∧ c ≤ '7' := by
  have hzero : c = '0' ↔ c.toNat = 48 := ⟨fun h => h ▸ rfl, fun h => Char.toNat_inj.1 h⟩
  simp only [isOctalDigit, decide_eq_true_eq, hzero, Char.le_def, UInt32.le_iff_toNat_le]
  change 48 ≤ c.toNat ∧ c.toNat ≤ 55 ↔ c.toNat = 48 ∨ 49 ≤ c.toNat ∧ c.toNat ≤ 55
  omega

/-- The octal digits at the front are there if the first digit is one. -/
theorem octal_eq_nil {digits : Text} :
    (digits.take 3).takeWhile isOctalDigit = [] ↔ ∀ c ∈ digits.head?, isOctalDigit c = false := by
  cases digits with
  | nil => simp
  | cons c digits => cases hc : isOctalDigit c <;> simp [hc]

/-- An escape that is taken is octal, or the number of a group, at least in front. -/
theorem isEscapeNumber_of_nodes {text : Text} {span : Span} {s : Suffix} {nodes : List Node}
    (h : numericEscapeNodes g text span s = .ok nodes) :
    IsEscapeNumber g ((text.drop 1).takeWhile Char.isDigit) := by
  simp only [numericEscapeNodes] at h
  generalize (text.drop 1).takeWhile Char.isDigit = digits at h ⊢
  split at h
  next hrefers => exact .inr (.inl hrefers.2)
  split at h
  · cases h
  next hsingle =>
  split at h
  · cases h
  next hoctal =>
    rw [octal_eq_nil] at hoctal
    obtain ⟨c, hc, hoctal⟩ : ∃ c ∈ digits.head?, isOctalDigit c := by simpa using hoctal
    rcases isOctalDigit_iff.1 hoctal with rfl | hfirst
    · exact .inl hc
    · obtain ⟨rest, rfl⟩ := List.head?_eq_some_iff.1 hc
      have hzero : c ≠ '0' := by
        rintro rfl
        exact absurd hfirst (by decide)
      have hlength : (c :: rest).length ≠ 1 := fun h => hsingle ⟨by simpa using hzero, h⟩
      refine .inr (.inr ⟨?_, c, hc, hfirst⟩)
      rw [List.length_cons] at hlength ⊢
      omega

/-- Digits that are neither a reference nor octal are refused rightly. -/
theorem not_isEscapeNumber {digits : Text} (hzero : digits.head? ≠ some '0')
    (hg : g.knows digits = false)
    (h : digits.length = 1 ∨ (digits.take 3).takeWhile isOctalDigit = []) :
    ¬ IsEscapeNumber g digits := by
  rintro (hfirst | hknown | ⟨hlength, c, hc, hfirst⟩)
  · exact hzero hfirst
  · rw [hg] at hknown
    cases hknown
  · rcases h with hsingle | hoctal
    · omega
    · have hnone := octal_eq_nil.1 hoctal c hc
      rw [isOctalDigit_iff.2 (.inr hfirst)] at hnone
      cases hnone

/-- Every block of a tree has been taken, and what is read as leaves has given leaves. -/
theorem exists_yields_of_ofBlocks {tree : Node} (h : Node.ofBlocks g bs = .ok tree) (hb : b ∈ bs)
    (hleaf : b.token.IsLeaf) : ∃ nodes, b.Yields g nodes := by
  obtain ⟨before, after, rfl⟩ := List.append_of_mem hb
  obtain ⟨a, hf, -⟩ := bind_eq_ok.1 h
  rw [List.foldlM_append, bind_eq_ok] at hf
  obtain ⟨a₁, -, hf⟩ := hf
  obtain ⟨a₂, hpush, -⟩ := pushAll_cons.1 hf
  rcases push_cases hpush with hy | ht | ⟨opening, ho⟩ | ht
  · exact hy
  · rw [ht] at hleaf
    exact hleaf.elim
  · exact absurd (Token.standsAlone_of_opening ho) hleaf.not_standsAlone
  · rw [ht] at hleaf
    exact hleaf.elim

theorem StartsWord.of_startsWithDigit {t : Text} (h : startsWithDigit t) : StartsWord t := by
  cases t with
  | nil => cases h
  | cons c rest => exact ⟨c, rfl, isWordChar_of_isDigit h⟩

end Push

section Streams

variable {pattern : Text} {stream : Stream} {g : GroupTable} {before after : List Block} {b : Block}

/-- Blocks that make no tree are refused for what they refer to, or for a third branch. -/
theorem refusedFor_of_ofBlocks {error : PatternError} (hs : blocksOf pattern = .ok stream)
    (h : Node.ofBlocks g stream.blocks = .error error) : RefusedFor g stream.blocks error := by
  have hr := blocksOf_regular hs
  obtain ⟨before, b, after, a, hsplit, ha, hrefuses⟩ :=
    (blocksOf_wellNested hs).exists_refuses hr h
  have hstands := stands_of_pushAll (fun c hc => hr c (by simp [hsplit, hc])) ha
  have enclosed {e : Enclosure} {outer : List Enclosure} (ha : a.enclosures = e :: outer)
      (he : e.opening = .conditional) : ∃ outside opener inner,
        stream.blocks = outside ++ opener :: (inner ++ b :: after) ∧
          opener.token = .openConditional ∧ opener.span.start = e.start ∧
            Assembles g inner a.level.branches := by
    obtain ⟨outside, opener, inner, rfl, hopening, hstart, hA⟩ := hstands.exists_opener ha
    rw [List.append_assoc, List.cons_append] at hsplit
    rw [he] at hopening
    exact ⟨outside, opener, inner, hsplit, Token.eq_openConditional hopening, hstart, hA⟩
  cases hrefuses with
  | name ht hg => exact .name hsplit ht hg
  | number ht hdigits hzero hg hlength =>
    subst hdigits
    exact .number hsplit ht (not_isEscapeNumber hzero hg (.inl hlength))
  | escape ht hdigits hzero hg hoctal =>
    subst hdigits
    exact .escape hsplit ht (not_isEscapeNumber hzero hg (.inr hoctal))
  | branches ht ha he hcount =>
    obtain ⟨outside, opener, inner, hsplit, hopener, hstart, hA⟩ := enclosed ha he
    have hbars := hA.directBars_inside ht after
    exact hstart ▸ .branches hsplit hopener (by omega)
  | @test e outer test yes others token ht ha he hlevel htoken hd hg =>
    obtain ⟨outside, opener, inner, hsplit, hopener, hstart, hA⟩ := enclosed ha he
    have hsub : inner ⊆ stream.blocks := fun c hc => by simp [hsplit, hc]
    rw [hlevel] at hA
    have htest : testLiteral? (inner ++ b :: after) = some token :=
      (testToken_iff_testLiteral? hs hsub hA ht (.of_startsWithDigit hd)).1 htoken
    exact hstart ▸ .test hsplit hopener htest hd hg

/-- Blocks make a tree if what they refer to is there. -/
theorem WellReferenced.exists_tree (hs : blocksOf pattern = .ok stream)
    (h : WellReferenced g stream.blocks)
    (hg : ∀ token, g.knows token → (g.resolve token).isSome) :
    ∃ tree, Node.ofBlocks g stream.blocks = .ok tree := by
  cases he : Node.ofBlocks g stream.blocks with
  | ok tree => exact ⟨tree, rfl⟩
  | error error =>
    have mem {before after : List Block} {b : Block}
        (hsplit : stream.blocks = before ++ b :: after) : b ∈ stream.blocks := by simp [hsplit]
    cases refusedFor_of_ofBlocks hs he with
    | name hsplit ht hunknown =>
      have hknown := h.named _ (mem hsplit) _ _ ht
      rw [hunknown] at hknown
      cases hknown
    | number hsplit ht hnumber | escape hsplit ht hnumber =>
      exact absurd (h.numeric _ (mem hsplit) _ ht) hnumber
    | branches hsplit ht hbars => exact absurd (h.branches _ _ _ hsplit ht) (by omega)
    | test hsplit ht htest hd hunknown =>
      have hknown := hg _ (h.tests _ _ _ hsplit ht _ htest hd)
      rw [hunknown] at hknown
      cases hknown

/-- Wherever the blocks of a tree open a conditional, they go on with a test and two branches at
most, and the test is accepted. -/
theorem exists_conditional_of_ofBlocks {bs : List Block} {tree : Node} (hr : ∀ b ∈ bs, b.Regular)
    (h : Node.ofBlocks g bs = .ok tree) (hsplit : bs = before ++ b :: after)
    (hb : b.token = .openConditional) :
    ∃ inner closer rest test yes, ∃ no : Option (List Node), ∃ condition,
      after = inner ++ closer :: rest ∧ Assembles g inner ((test :: yes) :: no.toList) ∧
        closer.token = .close ∧ testCondition g b.span.start test = .ok condition := by
  have hopening : b.token.opening? = some .conditional := by rw [hb]; rfl
  obtain ⟨inner, closer, rest, level, node, hafter, hA, hc, hn⟩ :=
    exists_node_of_ofBlocks hr h hsplit hopening
  obtain ⟨test, yes, no, hlevel, hn⟩ := conditional_opening_eq_ok.1 hn
  obtain ⟨condition, hcondition, -⟩ := conditionalNode_eq_ok.1 hn
  exact ⟨inner, closer, rest, test, yes, no, condition, hafter, hlevel ▸ hA, hc, hcondition⟩

/-- What the blocks of a tree refer to is there. -/
theorem WellReferenced.of_ofBlocks {tree : Node} (hs : blocksOf pattern = .ok stream)
    (hg : ∀ token, (g.resolve token).isSome → g.knows token)
    (h : Node.ofBlocks g stream.blocks = .ok tree) : WellReferenced g stream.blocks := by
  have hr := blocksOf_regular hs
  refine ⟨fun b hb text name ht => ?_, fun b hb text ht => ?_, fun before b after hsplit ht => ?_,
    fun before b after hsplit ht text htext hdigit => ?_⟩
  · obtain ⟨nodes, hy⟩ := exists_yields_of_ofBlocks h hb (by rw [ht]; trivial)
    cases hy with
    | reference htoken hknown =>
      rw [ht] at htoken
      cases htoken
      exact hknown
    | atom htoken => rw [ht] at htoken; cases htoken
    | layout htoken | options htoken | escape htoken => cases ht.symm.trans htoken
  · obtain ⟨escaped, rfl⟩ := (hr b hb).token.escape _ ht
    obtain ⟨nodes, hy⟩ := exists_yields_of_ofBlocks h hb (by rw [ht]; exact ⟨escaped, rfl⟩)
    cases hy with
    | escape htoken hn =>
      rw [ht] at htoken
      cases htoken
      exact isEscapeNumber_of_nodes hn
    | atom htoken => rw [ht] at htoken; cases htoken
    | layout htoken | options htoken | reference htoken => cases ht.symm.trans htoken
  · obtain ⟨inner, closer, rest, test, yes, no, condition, rfl, hA, hc, -⟩ :=
      exists_conditional_of_ofBlocks hr h hsplit ht
    have hcount := hA.directBars_inside hc rest
    have hno : no.toList.length ≤ 1 := by cases no <;> simp
    rw [List.length_cons] at hcount
    omega
  · obtain ⟨inner, closer, rest, test, yes, no, condition, rfl, hA, hc, hcondition⟩ :=
      exists_conditional_of_ofBlocks hr h hsplit ht
    have hsub : inner ⊆ stream.blocks := fun c hc => by simp [hsplit, hc]
    have htoken := (testToken_iff_testLiteral? hs hsub hA hc (.of_startsWithDigit hdigit)).2 htext
    rcases testCondition_eq_ok.1 hcondition with ⟨token, id, htoken', hid, -⟩ | ⟨hnone, -⟩
    · obtain rfl : text = token := Option.some.inj (htoken.symm.trans htoken')
      exact hg text (by rw [hid]; rfl)
    · rw [(hnone text htoken).2] at hdigit
      cases hdigit

end Streams

theorem read_isOk_iff_readTree {style : Style} {pattern : Text} :
    (∃ read, Pattern.read style pattern = .ok read) ↔ ∃ found, readTree pattern = .ok found := by
  constructor
  · rintro ⟨read, h⟩
    obtain ⟨found, hfound, -⟩ := bind_eq_ok.1 h
    exact ⟨found, hfound⟩
  · rintro ⟨⟨tree, groups⟩, h⟩
    exact ⟨_, bind_eq_ok.2 ⟨(tree, groups), h, rfl⟩⟩

/-- A pattern that can be cut into blocks is accepted exactly when what the blocks refer to is
there and no conditional has more than two branches. -/
theorem read_isOk_iff {style : Style} {pattern : Text} {stream : Stream}
    (hs : blocksOf pattern = .ok stream) :
    (∃ read, Pattern.read style pattern = .ok read) ↔
      WellReferenced (GroupTable.ofCaptures stream.captures stream.names) stream.blocks := by
  rw [read_isOk_iff_readTree]
  constructor
  · rintro ⟨found, h⟩
    obtain ⟨stream', hs', h⟩ := bind_eq_ok.1 h
    obtain rfl : stream = stream' := Except.ok.inj (hs.symm.trans hs')
    obtain ⟨tree, htree, -⟩ := bind_eq_ok.1 h
    exact .of_ofBlocks hs (fun _ => knows_of_resolve) htree
  · intro h
    obtain ⟨tree, htree⟩ :=
      h.exists_tree hs fun _ => resolve_isSome_of_knows (isGroupNumber_of_mem_names hs)
    exact ⟨_, bind_eq_ok.2 ⟨stream, hs, bind_eq_ok.2 ⟨tree, htree, rfl⟩⟩⟩

/-- No group is numbered nine, but a comment and a quantifier follow the test; and a bar inside a
group, an escape that is octal from its second digit on, and a name that is used before it is
declared. -/
def lenientPattern : Text := "(a)(?(9)(?#c)*b|c(?:d|e|f))\\18\\k<n>(?<n>x)\\07".toList

/-- Without the comment the test is the number of a group that is not there. -/
def danglingPattern : Text := "(a)(?(9)*b|c)".toList

theorem read_isOk_iff_lenientPattern :
    (∃ stream, blocksOf lenientPattern = .ok stream ∧
      (∃ read, Pattern.read .restructure lenientPattern = .ok read) ∧
      WellReferenced (GroupTable.ofCaptures stream.captures stream.names) stream.blocks) ∧
    ∃ stream, blocksOf danglingPattern = .ok stream ∧
      (¬ ∃ read, Pattern.read .restructure danglingPattern = .ok read) ∧
      ¬ WellReferenced (GroupTable.ofCaptures stream.captures stream.names) stream.blocks := by
  constructor
  · have hblocks : (blocksOf lenientPattern).isOk = true := by decide +kernel
    have hread : (Pattern.read .restructure lenientPattern).isOk = true := by decide +kernel
    cases hs : blocksOf lenientPattern with
    | error e => rw [hs] at hblocks; cases hblocks
    | ok stream =>
      cases hp : Pattern.read .restructure lenientPattern with
      | error e => rw [hp] at hread; cases hread
      | ok read => exact ⟨stream, rfl, ⟨read, rfl⟩, (read_isOk_iff hs).1 ⟨read, hp⟩⟩
  · have hblocks : (blocksOf danglingPattern).isOk = true := by decide +kernel
    have hread : (Pattern.read .restructure danglingPattern).isOk = false := by decide +kernel
    have hrefused : ¬ ∃ read, Pattern.read .restructure danglingPattern = .ok read := by
      rintro ⟨read, hp⟩
      rw [hp] at hread
      cases hread
    cases hs : blocksOf danglingPattern with
    | error e => rw [hs] at hblocks; cases hblocks
    | ok stream => exact ⟨stream, rfl, hrefused, fun h => hrefused ((read_isOk_iff hs).2 h)⟩

end RegexAnatomy
