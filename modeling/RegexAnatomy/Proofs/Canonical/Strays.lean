import RegexAnatomy.Proofs.Canonical.Kept
import RegexAnatomy.Proofs.Canonical.Recut
import RegexAnatomy.Proofs.Reading.Blocks

/-! The strays of a block: all the trivia that stand behind its token and belong to
no quantifier once the block is in canonical spelling. The block gives the tree
what the same block without them gives, and then the strays. In front of a text
that is read they are read too, but blanks run into blanks that stand there. -/

namespace RegexAnatomy

def Block.kept (b : Block) : Option Repetition := b.repetition.bind Repetition.kept

def Block.strays (b : Block) : List Trivia :=
  (b.repetition.map Repetition.strays).getD [] ++ b.trivia

def Block.canonicalTail (b : Block) : Text :=
  (b.repetition.map Repetition.canonicalText).getD [] ++ triviaText b.trivia

section Blocks

variable {g : GroupTable} {b : Block} {node head : Node} {tail : Text} {nodes : List Node}

theorem Block.canonicalText_token (b : Block) : b.canonicalText = b.token.text ++ b.canonicalTail :=
  List.append_assoc ..

theorem Block.canonicalTail_kept (b : Block) : b.canonicalTail =
    (b.kept.map Repetition.text).getD [] ++ triviaText b.strays := by
  unfold Block.canonicalTail Block.kept Block.strays
  cases b.repetition with
  | none => simp
  | some r => simp [r.canonicalText_eq, triviaText_append]

/-- Either the quantifier is kept and the strays come after the node, or nothing of it is left, and
all the trivia behind the token are strays. -/
theorem Block.suffix_kept (h : ∀ r ∈ b.repetition, IsQuantifier r.quantifier) :
    (b.suffix.before = (b.token.block b.kept).suffix.before ∧
      b.suffix.quantifier = (b.token.block b.kept).suffix.quantifier ∧
      b.loose = b.strays.map Trivia.node) ∨
    (b.kept = none ∧ b.suffix.quantifier = [] ∧
      b.suffix.before ++ b.loose = b.strays.map Trivia.node) := by
  unfold Block.suffix Block.loose Block.suffix Block.kept Block.strays Token.block
  cases hr : b.repetition with
  | none => exact .inl ⟨rfl, rfl, by simp⟩
  | some r =>
    cases hk : r.kept with
    | none =>
      obtain ⟨hq, hs⟩ := Repetition.suffix_of_kept_none hk
      exact .inr ⟨hk, hq, by simp [← List.append_assoc, hs]⟩
    | some k =>
      obtain ⟨hb, hq, hs⟩ := Repetition.suffix_kept (Repetition.kept_isCanonical (h r hr) hk).1 hk
      exact .inl ⟨by simp [hk, hb], by simp [hk, hq], by simp [hs]⟩

theorem quantify_kept (h : ∀ r ∈ b.repetition, IsQuantifier r.quantifier) (node : Node) :
    quantify node b.suffix ++ b.loose =
      quantify node (b.token.block b.kept).suffix ++ b.strays.map Trivia.node := by
  rcases Block.suffix_kept h with ⟨hb, hq, hs⟩ | ⟨hk, hq, hs⟩
  · rw [quantify, quantify, hb, hq, hs]
  · have hnone : quantify node (b.token.block b.kept).suffix = [node] := by
      simp [hk, Block.suffix, Token.block, quantify, Node.quantified]
    have hbare : quantify node b.suffix = node :: b.suffix.before := by
      unfold quantify
      rw [hq]
      split
      next hb => simp [hb, Node.quantified]
      next => rfl
    rw [hnone, hbare, List.cons_append, hs]
    rfl

theorem quantifyTail_kept (h : ∀ r ∈ b.repetition, IsQuantifier r.quantifier) (head : Node)
    (tail : Text) : quantifyTail head tail b.suffix ++ b.loose =
      quantifyTail head tail (b.token.block b.kept).suffix ++ b.strays.map Trivia.node := by
  by_cases ht : tail = []
  · simp only [quantifyTail, if_pos ht, quantify_kept h]
  rcases Block.suffix_kept h with ⟨hb, hq, hs⟩ | ⟨hk, hq, hs⟩
  · simp only [quantifyTail, quantify, if_neg ht, hb, hq, hs]
  · have hnone : (b.token.block b.kept).suffix = {} := by
      rw [hk]
      rfl
    simp only [quantifyTail, if_neg ht, hq, hnone, if_true, List.cons_append, hs,
      List.nil_append]

/-- With more text behind it, and no more digits, an escape refers to what it referred to. -/
theorem numericEscapeNodes_append {escaped : Text} {span : Span} {s : Suffix}
    (h : numericEscapeNodes g ('\\' :: escaped) span s = .ok nodes) :
    ∃ text isReference front tail, escaped = front ++ tail ∧ (∀ c ∈ front, c.isDigit) ∧
      nodes = quantifyTail (.reference text isReference) tail s ∧ ∀ more s' span',
        (escaped.all Char.isDigit → ∀ c ∈ more.head?, c.isDigit = false) →
        numericEscapeNodes g ('\\' :: escaped ++ more) span' s' =
          .ok (quantifyTail (.reference text isReference) (tail ++ more) s') := by
  simp only [numericEscapeNodes, List.drop_succ_cons, List.drop_zero] at h
  split at h
  -- a reference takes all the digits, an octal escape at most three of them
  next hr =>
    cases h
    refine ⟨_, _, _, _, List.takeWhile_append_dropWhile.symm, fun _ => List.mem_takeWhile_imp,
      rfl, fun more s' span' hm => ?_⟩
    obtain ⟨h1, h2⟩ := takeWhile_append_stop hm
    simp only [numericEscapeNodes, List.cons_append, List.drop_succ_cons, List.drop_zero, h1, h2,
      if_pos hr]
  next hr =>
  split at h
  · cases h
  next hone =>
  split at h
  · cases h
  next hoctal =>
    cases h
    have hfront : ((escaped.takeWhile Char.isDigit).take 3).takeWhile isOctalDigit <+:
        escaped.takeWhile Char.isDigit := (List.takeWhile_prefix _).trans (List.take_prefix _ _)
    have hescaped := hfront.trans (List.takeWhile_prefix _)
    refine ⟨_, _, _, _, (List.prefix_iff_eq_append.1 hescaped).symm,
      fun c hc => List.mem_takeWhile_imp (hfront.subset hc), rfl, fun more s' span' hm => ?_⟩
    obtain ⟨h1, -⟩ := takeWhile_append_stop hm
    simp only [numericEscapeNodes, List.cons_append, List.drop_succ_cons, List.drop_zero, h1,
      if_neg hr, if_neg hone, if_neg hoctal, List.drop_append_of_le_length hescaped.length_le]

/-- A leaf gives the tree what is kept of it, and the strays. -/
theorem Block.Yields.kept (h : b.Yields g nodes) (hr : b.Regular)
    (hq : ∀ r ∈ b.repetition, IsQuantifier r.quantifier) : ∃ nodes',
      (b.token.block b.kept).Yields g nodes' ∧
        nodes ++ b.loose = nodes' ++ b.strays.map Trivia.node := by
  have alone (hnone : b.repetition = none) : b.loose = b.strays.map Trivia.node := by
    simp [Block.loose, Block.suffix, Block.strays, hnone]
  cases h with
  | layout h => exact ⟨[], .layout h, by rw [alone (hr.layout h).1]⟩
  | @options text h =>
    have hnone := (hr.alone (by rw [h]; trivial)).1
    exact ⟨_, .options h, by rw [alone hnone]⟩
  | @atom node h => exact ⟨_, .atom h, quantify_kept hq node⟩
  | reference h hk => exact ⟨_, .reference h hk, quantify_kept hq _⟩
  | escape h hn =>
    obtain ⟨escaped, rfl⟩ := hr.token.escape _ h
    obtain ⟨text, isReference, front, tail, -, -, rfl, hagain⟩ := numericEscapeNodes_append hn
    refine ⟨_, .escape h ?_, quantifyTail_kept hq _ tail⟩
    simpa using hagain [] (b.token.block b.kept).suffix (b.token.block b.kept).span (by simp)

end Blocks

/-- The item is trivia in front of `rest`: a line comment goes to the end of its line. -/
inductive Trivia.Stands (free : Bool) (rest : Text) : Trivia → Prop
  | inlineComment {inside : Text} (h : ∀ c ∈ inside, c ≠ ')') :
      Stands free rest ⟨.inlineComment, '(' :: '?' :: '#' :: inside ++ [')']⟩
  | lineComment {inside : Text} (hfree : free) (h : ∀ c ∈ inside, isLineEnd c = false)
      (hrest : ∀ c ∈ rest.head?, isLineEnd c) : Stands free rest ⟨.lineComment, '#' :: inside⟩
  | blanks {text : Text} (hfree : free) (hne : text ≠ []) (h : ∀ c ∈ text, isBlank c) :
      Stands free rest ⟨.blanks, text⟩

def TriviaRun (free : Bool) : List Trivia → Text → Prop
  | [], _ => True
  | item :: items, rest =>
    item.Stands free (triviaText items ++ rest) ∧ TriviaRun free items rest

section Runs

variable {free : Bool} {t a rest rest' : Text} {item : Trivia} {items : List Trivia}

theorem stands_of_splitTrivia (h : splitTrivia free t = some (item, a)) : item.Stands free a := by
  unfold splitTrivia at h
  split at h
  next inside =>
    split at h <;> cases h
    exact .inlineComment fun c hc => by simpa using List.mem_takeWhile_imp hc
  · split at h
    next hfree =>
      unfold splitSpacing at h
      split at h
      next hne =>
        cases h
        exact .blanks hfree hne fun _ => List.mem_takeWhile_imp
      next =>
        split at h <;> cases h
        next =>
          refine .lineComment hfree (fun c hc => ?_) fun c hc => ?_
          · simpa using List.mem_takeWhile_imp hc
          · simpa using not_of_mem_head?_dropWhile hc
    next => cases h

/-- What stands behind an item counts only as far as a line goes on there. -/
theorem Trivia.Stands.congr (hr : (∀ c ∈ rest.head?, isLineEnd c) → ∀ c ∈ rest'.head?, isLineEnd c)
    (h : item.Stands free rest) : item.Stands free rest' := by
  cases h with
  | inlineComment h => exact .inlineComment h
  | lineComment hfree h hrest => exact .lineComment hfree h (hr hrest)
  | blanks hfree hne h => exact .blanks hfree hne h

theorem TriviaRun.congr (hr : (∀ c ∈ rest.head?, isLineEnd c) → ∀ c ∈ rest'.head?, isLineEnd c)
    (h : TriviaRun free items rest) : TriviaRun free items rest' := by
  induction items with
  | nil => trivial
  | cons item items ih =>
    refine ⟨h.1.congr ?_, ih h.2⟩
    cases ht : triviaText items with
    | nil => exact hr
    | cons => exact id

theorem TriviaRun.append {items' : List Trivia}
    (h : TriviaRun free items (triviaText items' ++ rest)) (h' : TriviaRun free items' rest) :
    TriviaRun free (items ++ items') rest := by
  induction items with
  | nil => exact h'
  | cons item items ih =>
    refine ⟨?_, ih h.2⟩
    have htext : triviaText (items ++ items') ++ rest =
        triviaText items ++ (triviaText items' ++ rest) := by
      rw [triviaText_append, List.append_assoc]
    exact htext ▸ h.1

theorem triviaRun_takeTrivia (free : Bool) (t : Text) :
    TriviaRun free (takeTrivia free t).1 (takeTrivia free t).2 := by
  fun_induction takeTrivia free t with
  | case1 => trivial
  | case2 t item rest h hl more after he ih =>
    have htext := takeTrivia_append free rest
    rw [he] at ih htext
    refine ⟨?_, ih⟩
    rw [htext]
    exact stands_of_splitTrivia h

theorem TakesTrivia.run (h : TakesTrivia free a items rest) : TriviaRun free items rest := by
  rcases h with ⟨rfl, -⟩ | h
  · trivial
  · have hrun := triviaRun_takeTrivia free a
    rwa [h] at hrun

/-- Trivia in front of a quantifier stand in front of anything. -/
theorem TriviaRun.of_quantifier (h : TriviaRun free items rest) (hq : startsQuantifier rest)
    (rest' : Text) : TriviaRun free items rest' := by
  refine h.congr fun hline => ?_
  obtain ⟨c, rest, rfl, hc⟩ := exists_cons_of_startsQuantifier hq
  have hend : isLineEnd c := hline c rfl
  rcases hc with rfl | rfl | rfl | rfl <;> cases hend

end Runs

section Tails

variable {free : Bool} {t a rest : Text} {repetition : Option Repetition}

theorem isQuantifier_of_splitRepetition (h : splitRepetition free t = (repetition, a)) :
    ∀ r ∈ repetition, IsQuantifier r.quantifier := by
  simp only [splitRepetition] at h
  split at h
  · cases h
    simp
  next hq =>
    have hquantifier := isQuantifier_of_split hq
    split at h <;> cases h <;> simpa using hquantifier

theorem strays_of_splitRepetition (h : splitRepetition free t = (repetition, a)) (rest : Text) :
    ∀ r ∈ repetition, TriviaRun free r.strays rest := by
  simp only [splitRepetition] at h
  split at h
  · cases h
    simp
  next quantifier rest' hq =>
    have hbefore (rest : Text) : TriviaRun free (takeTrivia free t).1 rest :=
      (triviaRun_takeTrivia free t).of_quantifier (by simp [startsQuantifier, hq]) rest
    have strays {r : Repetition} (hb : r.before = (takeTrivia free t).1)
        (hl : TriviaRun free (r.lazyMark.getD []) rest) : TriviaRun free r.strays rest := by
      simp only [Repetition.strays]
      split
      · exact (hb ▸ hbefore _).append hl
      · split
        · trivial
        · exact hl
    split at h <;> cases h
    next hm =>
      rintro _ ⟨⟩
      exact strays rfl ((triviaRun_takeTrivia free rest').of_quantifier (by rw [hm]; rfl) rest)
    next =>
      rintro _ ⟨⟩
      exact strays rfl trivial

theorem Repetition.kept_cases {r k : Repetition} (h : r.kept = some k) :
    k.before = r.before ∧ (k.lazyMark = r.lazyMark ∨ k.lazyMark = none) := by
  simp only [Repetition.kept] at h
  split at h
  · cases h
  · split at h <;> cases h
    · exact ⟨rfl, .inl rfl⟩
    · exact ⟨rfl, .inr rfl⟩

/-- What is kept of a quantifier is read in its place in front of a text in which no quantifier
follows, and it looks like the quantifier. -/
theorem splitRepetition_kept {r k : Repetition} (h : splitRepetition free t = (some r, a))
    (hk : r.kept = some k) (hrest : quantifierFollows free rest = false) :
    splitRepetition free (k.text ++ rest) = (some k, rest) ∧ Alike free t (k.text ++ rest) := by
  have hquantifier := (Repetition.kept_isCanonical (isQuantifier_of_splitRepetition h r rfl) hk).2
  obtain ⟨hb, hl⟩ := Repetition.kept_cases hk
  rcases k with ⟨before, quantifier, lazyMark⟩
  dsimp only at hquantifier hb hl
  subst hb
  simp only [splitRepetition] at h
  split at h
  · cases h
  next quantifier' rest' hq =>
    -- the trivia in front of the quantifier are taken again, whatever stands behind it
    have hstart (u : Text) : Alike free (takeTrivia free t).2 (quantifier ++ u) :=
      .quantifier (by simp [startsQuantifier, hq])
        (by simp [startsQuantifier, splitQuantifier_again hquantifier u])
    have hbefore (u : Text) := takeTrivia_again (hstart u)
    have hagain (u : Text) := splitQuantifier_again hquantifier u
    have bare : splitRepetition free (triviaText (takeTrivia free t).1 ++ (quantifier ++ rest)) =
        (some ⟨(takeTrivia free t).1, quantifier, none⟩, rest) := by
      simp only [splitRepetition, (hbefore rest).1, hagain]
      split
      next more hm => exact absurd hm (not_question_of_quantifierFollows hrest more)
      next => rfl
    split at h
    next more hm =>
      cases h
      rcases hl with rfl | rfl
      · have hlazy : Alike free (takeTrivia free rest').2 ('?' :: rest) := by
          rw [hm]
          exact .quantifier rfl rfl
        obtain ⟨hafter, -⟩ := takeTrivia_again hlazy
        refine ⟨?_, by simpa [Repetition.text] using (hbefore _).2⟩
        simp only [splitRepetition, Repetition.text, List.append_assoc, List.singleton_append,
          (hbefore _).1, hagain, hafter]
      · exact ⟨by simpa [Repetition.text] using bare,
          by simpa [Repetition.text] using (hbefore rest).2⟩
    next =>
      cases h
      obtain rfl : lazyMark = none := by simpa using hl
      exact ⟨by simpa [Repetition.text] using bare,
        by simpa [Repetition.text] using (hbefore rest).2⟩

end Tails

section Reading

variable {g : GroupTable} {f f' : Front} {t t' : Text} {item : Trivia} {items : List Trivia}
  {branch : List Node} {branches : List (List Node)}

theorem splitTrivia_of_stands {free : Bool} (h : item.Stands free t)
    (hblank : free → item.kind = .blanks → ∀ c ∈ t.head?, isBlank c = false) :
    splitTrivia free (item.text ++ t) = some (item, t) := by
  cases h with
  | @inlineComment inside h =>
    have hclose : ∀ c ∈ (')' :: t).head?, decide (c ≠ ')') = false := by simp
    obtain ⟨h1, h2⟩ := takeWhile_append_exact (fun c hc => decide_eq_true (h c hc)) hclose
    simp only [List.cons_append, List.append_assoc, List.nil_append, splitTrivia, h1, h2]
  | @lineComment inside hfree h hrest =>
    have hline : ∀ c ∈ inside, (! isLineEnd c) := fun c hc => by simp [h c hc]
    have hends : ∀ c ∈ t.head?, (! isLineEnd c) = false := fun c hc => by simp [hrest c hc]
    obtain ⟨h1, h2⟩ := takeWhile_append_exact hline hends
    simp [splitTrivia, splitSpacing, hfree, isBlank, h1, h2]
  | @blanks text hfree hne h =>
    obtain ⟨c, text, rfl⟩ := List.exists_cons_of_ne_nil hne
    obtain ⟨h1, h2⟩ := takeWhile_append_exact h (hblank hfree rfl)
    rw [hfree, List.cons_append, splitTrivia_blank (h c (by simp)), ← List.cons_append, h1, h2]

theorem testToken_trivia (item : Trivia) : testToken item.node = none := rfl

/-- Blanks in front of blanks are read as one with them. -/
theorem Reads.prepend_blanks {text : Text} {c : Char}
    (h : Reads g f.settle (c :: t) (branch :: branches) f' t') (hc : isBlank c)
    (hfree : f.mode.freeSpacing) (hne : text ≠ []) (hblank : ∀ d ∈ text, isBlank d) :
    ∃ again, Recut (Trivia.node ⟨.blanks, text⟩ :: branch) again ∧
      Reads g f (text ++ c :: t) (again :: branches) f' t' := by
  have hsplit := splitTrivia_blank (a := t) hc
  have hnot (ht : StartsToken f.settle.mode.freeSpacing (c :: t)) : False := by
    have hnone : splitTrivia true (c :: t) = none := hfree ▸ ht.trivia
    rw [hsplit] at hnone
    cases hnone
  generalize hct : c :: t = u at h
  cases h with
  | stop ht =>
    subst hct
    rcases ht c rfl with rfl | rfl <;> cases hc
  | bar => cases hct; cases hc
  | leaf ht => subst hct; exact (hnot ht).elim
  | group ht => subst hct; exact (hnot ht).elim
  | @trivia _ _ _ a _ next rest _ hs h =>
    subst hct
    replace hs : splitTrivia true (c :: t) = some (next, a) := hfree ▸ hs
    rw [hsplit] at hs
    cases hs
    obtain ⟨d, text, rfl⟩ := List.exists_cons_of_ne_nil hne
    refine ⟨Trivia.node ⟨.blanks, d :: text ++ (c :: t).takeWhile isBlank⟩ :: rest,
      .of_no_test ?_ (by simp) (testToken_trivia _), .trivia ?_ h⟩
    · simp [spelledAll, Trivia.node, Node.plain, Node.spelled, spelledAtom, TriviaKind.atomKind, hc]
    · rw [hfree, List.cons_append, splitTrivia_blank (hblank d (by simp)), ← List.cons_append,
        List.takeWhile_append_of_pos hblank, List.dropWhile_append_of_pos hblank]

theorem Reads.prepend_trivia (h : Reads g f.settle t (branch :: branches) f' t')
    (hs : item.Stands f.mode.freeSpacing t) : ∃ again, Recut (item.node :: branch) again ∧
      Reads g f (item.text ++ t) (again :: branches) f' t' := by
  -- only blanks in front of blanks are not read as they stand
  by_cases hb : f.mode.freeSpacing ∧ item.kind = .blanks ∧ ∃ c ∈ t.head?, isBlank c
  · obtain ⟨hfree, hkind, c, hc, hblank⟩ := hb
    obtain ⟨u, rfl⟩ := List.head?_eq_some_iff.1 hc
    cases hs with
    | blanks _ hne hall => exact h.prepend_blanks hblank hfree hne hall
    | _ => cases hkind
  · refine ⟨item.node :: branch, .refl _, .trivia (splitTrivia_of_stands hs ?_) h⟩
    intro hfree hkind c hc
    by_contra hblank
    exact hb ⟨hfree, hkind, c, hc, by simpa using hblank⟩

theorem Reads.prepend_strays (h : Reads g (f.pass items) t (branch :: branches) f' t')
    (hs : TriviaRun f.mode.freeSpacing items t) :
    ∃ again, Recut (items.map Trivia.node ++ branch) again ∧
      Reads g f (triviaText items ++ t) (again :: branches) f' t' := by
  induction items generalizing f with
  | nil => exact ⟨branch, .refl branch, h⟩
  | cons item items ih =>
    replace h : Reads g (f.settle.pass items) t (branch :: branches) f' t' := by
      rw [Front.settle_pass]
      exact h
    obtain ⟨between, hbetween, hread⟩ := ih h hs.2
    obtain ⟨again, hagain, hread⟩ := hread.prepend_trivia hs.1
    refine ⟨again, (hbetween.append_left [item.node]).trans hagain, ?_⟩
    have htext : triviaText (item :: items) ++ t = item.text ++ (triviaText items ++ t) := by
      simp [triviaText]
    rwa [htext]

end Reading

end RegexAnatomy
