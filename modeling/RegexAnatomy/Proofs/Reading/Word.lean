import RegexAnatomy.Proofs.Reading.Blocks

/-! Words: the texts that can number or name a group. A word is read as literal text
and nothing else, for every other token, every quantifier and every piece of trivia
brings a character that no word has. -/

namespace RegexAnatomy

def IsWord (t : Text) : Prop := t ≠ [] ∧ ∀ c ∈ t, isWordChar c

def StartsWord (t : Text) : Prop := ∃ c ∈ t.head?, isWordChar c

theorem IsWord.startsWord {t : Text} (h : IsWord t) : StartsWord t := by
  obtain ⟨hne, hw⟩ := h
  obtain ⟨c, rest, rfl⟩ := List.exists_cons_of_ne_nil hne
  exact ⟨c, rfl, hw c (by simp)⟩

section Names

variable {t rest name : Text}

theorem readGroupName_isWord (h : readGroupName t = .ok (some name, rest)) : IsWord name := by
  obtain ⟨rfl, -, hne, -⟩ := readGroupName_eq_ok.1 h
  exact ⟨hne, fun _ => List.mem_takeWhile_imp⟩

theorem isWordChar_of_isDigit {c : Char} (h : c.isDigit) : isWordChar c := by
  simp [isWordChar, Char.isAlphanum, h]

/-- What denotes a group is a word. -/
theorem isWord_of_resolve {plain : Nat} {names : List Text} (h : ∀ name ∈ names, IsWord name)
    (ht : ((GroupTable.ofCaptures plain names).resolve t).isSome) : IsWord t := by
  simp only [GroupTable.resolve] at ht
  split at ht
  next hg =>
    simp only [isGroupNumber, isNumeral, Bool.and_eq_true, Bool.not_eq_true',
      List.isEmpty_eq_false_iff, List.all_eq_true] at hg
    exact ⟨hg.1.1, fun c hc => isWordChar_of_isDigit (hg.1.2 c hc)⟩
  next =>
    obtain ⟨id, hid⟩ := Option.isSome_iff_exists.1 ht
    obtain ⟨n, hn, -⟩ := Option.map_eq_some_iff.1 hid
    exact h t (mem_names_of_numberOf hn)

end Names

section Blocks

variable {free : Bool} {t rest : Text}

theorem not_startsWord_of_splitTrivia {item : Trivia}
    (h : splitTrivia free t = some (item, rest)) : ¬ StartsWord t := by
  rintro ⟨c, hc, hw⟩
  obtain ⟨d, t, rfl, hd⟩ := exists_cons_of_splitTrivia h
  cases hc
  rcases hd with hd | ⟨-, hd | rfl⟩
  · obtain ⟨_, he⟩ := exists_cons_of_startsComment hd
    cases he
    cases hw
  · simp only [isBlank, List.contains_eq_mem, List.mem_cons, List.not_mem_nil, or_false,
      decide_eq_true_eq] at hd
    rcases hd with rfl | rfl | rfl | rfl | rfl <;> cases hw
  · cases hw

/-- Trivia bring a character that no word has. -/
theorem splitTrivia_not_word {item : Trivia} (h : splitTrivia free t = some (item, rest)) :
    ∃ c ∈ item.text, isWordChar c = false := by
  obtain ⟨ht, hne⟩ := splitTrivia_append h
  obtain ⟨d, more, hd⟩ := List.exists_cons_of_ne_nil hne
  refine ⟨d, by simp [hd], eq_false_of_ne_true fun hw => ?_⟩
  exact not_startsWord_of_splitTrivia h ⟨d, by simp [← ht, hd], hw⟩

theorem takeTrivia_not_word : ∀ item ∈ (takeTrivia free t).1,
    ∃ c ∈ item.text, isWordChar c = false := by
  fun_induction takeTrivia free t with
  | case1 => simp
  | case2 t item rest hs hl more after he ih =>
    rw [he] at ih
    exact List.forall_mem_cons.2 ⟨splitTrivia_not_word hs, ih⟩

/-- No trivia stand in a word. -/
theorem eq_nil_of_word {items : List Trivia}
    (hi : ∀ item ∈ items, ∃ c ∈ item.text, isWordChar c = false)
    (hw : ∀ c ∈ triviaText items, isWordChar c) : items = [] := by
  refine List.eq_nil_iff_forall_not_mem.2 fun item hm => ?_
  obtain ⟨c, hc, hword⟩ := hi item hm
  rw [hw c (List.mem_flatMap.2 ⟨item, hm, hc⟩)] at hword
  cases hword

def quantifierMarks : List Char := ['*', '+', '?', '\x7b']

theorem exists_mark_of_shortBounds {counts mark short : Text}
    (h : shortBounds counts mark = some short) :
    short = [] ∨ ∃ c ∈ quantifierMarks, short.head? = some c := by
  simp only [shortBounds] at h
  split at h
  · split at h <;> cases h
    · exact .inl rfl
    · exact .inr ⟨'\x7b', by decide, rfl⟩
  · split at h
    · cases h; exact .inr ⟨'*', by decide, rfl⟩
    split at h
    · cases h; exact .inr ⟨'+', by decide, rfl⟩
    split at h
    · cases h; exact .inr ⟨'?', by decide, rfl⟩
    split at h
    · cases h; exact .inl rfl
    split at h <;> cases h
    exact .inr ⟨'\x7b', by decide, rfl⟩

theorem canonicalQuantifier_cases (q : Text) : canonicalQuantifier q = q ∨
    ∃ counts mark, shortBounds counts mark = some (canonicalQuantifier q) := by
  unfold canonicalQuantifier
  split
  next inner =>
    dsimp only
    generalize (inner.getLast? == some '?') = lazy
    generalize (if lazy then inner.dropLast else inner) = braced
    split
    · cases hs : shortBounds braced.dropLast (if lazy then ['?'] else []) with
      | none => exact .inl rfl
      | some short => exact .inr ⟨_, _, hs⟩
    · exact .inl rfl
  · exact .inl rfl

/-- In canonical spelling a quantifier still starts like one, unless it is gone. -/
theorem exists_mark_of_canonicalRepetition {raw : Text} {c : Char} (hc : c ∈ quantifierMarks)
    (h : raw.head? = some c) (lazy : Bool) : canonicalRepetition raw lazy = [] ∨
      ∃ d ∈ quantifierMarks, (canonicalRepetition raw lazy).head? = some d := by
  obtain ⟨inner, rfl⟩ := List.head?_eq_some_iff.1 h
  have key {q : Text} (hq : q.head? = some c) : canonicalQuantifier q = [] ∨
      ∃ d ∈ quantifierMarks, (canonicalQuantifier q).head? = some d := by
    rcases canonicalQuantifier_cases q with he | ⟨counts, mark, hs⟩
    · exact .inr ⟨c, hc, by rw [he, hq]⟩
    · exact exists_mark_of_shortBounds hs
  rw [canonicalRepetition, if_neg (by simp)]
  split
  · exact key rfl
  · exact key rfl

theorem not_isWordChar_of_mark {c : Char} (h : c ∈ quantifierMarks) : isWordChar c = false := by
  simp only [quantifierMarks, List.mem_cons, List.not_mem_nil, or_false] at h
  rcases h with rfl | rfl | rfl | rfl <;> rfl

/-- A suffix that is written within a word says nothing. -/
theorem Repetition.suffix_of_word {r : Repetition} {c : Char} (hc : c ∈ quantifierMarks)
    (hq : r.quantifier.head? = some c)
    (hb : ∀ item ∈ r.before, ∃ c ∈ item.text, isWordChar c = false)
    (hl : ∀ items ∈ r.lazyMark, ∀ item ∈ items, ∃ c ∈ item.text, isWordChar c = false)
    (hw : ∀ c ∈ r.canonicalText, isWordChar c) : r.suffix.before = [] ∧ r.suffix.quantifier = [] ∧
      r.suffix.after = [] ∧ r.canonicalText = [] := by
  rcases r with ⟨before, quantifier, lazyMark⟩
  have hmark := exists_mark_of_canonicalRepetition hc hq lazyMark.isSome
  simp only [Repetition.canonicalText, List.forall_mem_append] at hw
  obtain ⟨hbw, hw⟩ := hw
  obtain rfl : before = [] := eq_nil_of_word hb hbw
  have hnil : canonicalRepetition quantifier lazyMark.isSome = [] := by
    refine hmark.resolve_right ?_
    rintro ⟨d, hd, hhead⟩
    obtain ⟨more, he⟩ := List.head?_eq_some_iff.1 hhead
    have hword : isWordChar d := by
      rw [he] at hw
      split at hw
      next hlast =>
        -- what stays of the quantifier in front of its lazy mark is not looked at
        simpa [isWordChar] using hw '?' (by simp)
      next => exact hw d (by simp)
    rw [not_isWordChar_of_mark hd] at hword
    cases hword
  rw [hnil] at hw
  cases lazyMark with
  | none =>
    replace hnil : canonicalRepetition quantifier false = [] := hnil
    simp [Repetition.suffix, Repetition.canonicalText, hnil, triviaText]
  | some items =>
    replace hnil : canonicalRepetition quantifier true = [] := hnil
    obtain rfl : items = [] := eq_nil_of_word (hl items rfl) (by simpa using hw)
    simp [Repetition.suffix, Repetition.canonicalText, hnil, triviaText]

theorem exists_mark_of_splitQuantifier {quantifier : Text}
    (h : splitQuantifier t = some (quantifier, rest)) :
    ∃ c ∈ quantifierMarks, quantifier.head? = some c := by
  obtain ⟨c, more, rfl, hc⟩ := exists_cons_of_startsQuantifier
    (show startsQuantifier t by simp [startsQuantifier, h])
  have ht := splitQuantifier_append h
  obtain ⟨d, q, rfl⟩ := List.exists_cons_of_ne_nil (splitQuantifier_ne_nil h)
  obtain ⟨rfl, -⟩ := List.cons.inj ht
  exact ⟨d, by rcases hc with rfl | rfl | rfl | rfl <;> decide, rfl⟩

/-- The tail of a block that is written within a word is no tail at all. -/
theorem readRepetition_of_word {repetition : Option Repetition} {items : List Trivia}
    (h : readRepetition free t = .ok (repetition, items, rest))
    (hw : ∀ c ∈ (repetition.map Repetition.canonicalText).getD [] ++ triviaText items,
      isWordChar c) :
    (repetition.map Repetition.suffix).getD {} = {} ∧ items = [] ∧
      (repetition.map Repetition.canonicalText).getD [] = [] := by
  have trivia {t rest : Text} {items : List Trivia}
      (h : readTrivia free t = .ok (items, rest)) :
      ∀ item ∈ items, ∃ c ∈ item.text, isWordChar c = false := by
    obtain ⟨h, -⟩ := readTrivia_eq_ok.1 h
    have htake := @takeTrivia_not_word free t
    rwa [h] at htake
  obtain ⟨hr, hi⟩ := List.forall_mem_append.1 hw
  simp only [readRepetition, bind_eq_ok] at h
  obtain ⟨⟨before, rest₁⟩, hb, h⟩ := h
  split at h
  next =>
    cases h
    exact ⟨rfl, eq_nil_of_word (trivia hb) hi, rfl⟩
  next quantifier rest₂ hq =>
    obtain ⟨⟨after, rest₃⟩, ha, h⟩ := bind_eq_ok.1 h
    obtain ⟨c, hc, hhead⟩ := exists_mark_of_splitQuantifier hq
    have whole {r : Repetition} (hsame : r.before = before ∧ r.quantifier = quantifier)
        (hl : ∀ items ∈ r.lazyMark, items = after) (hw : ∀ c ∈ r.canonicalText, isWordChar c) :
        r.suffix = {} ∧ r.canonicalText = [] := by
      obtain ⟨rfl, rfl⟩ := hsame
      obtain ⟨h1, h2, h3, h4⟩ := r.suffix_of_word hc hhead (trivia hb)
        (fun items hi => hl items hi ▸ trivia ha) hw
      refine ⟨?_, h4⟩
      cases hs : r.suffix
      simp_all
    split at h
    next =>
      cases h
      obtain ⟨hs, ht⟩ := whole (r := ⟨before, quantifier, some after⟩) ⟨rfl, rfl⟩ (by simp) hr
      exact ⟨hs, rfl, ht⟩
    next =>
      cases h
      obtain ⟨hs, ht⟩ := whole (r := ⟨before, quantifier, none⟩) ⟨rfl, rfl⟩ (by simp) hr
      exact ⟨hs, eq_nil_of_word (trivia ha) hi, ht⟩

/-- A token that starts like a word is literal text. -/
theorem readLead_of_word {ctx : Context} {lead : Lead} {c : Char}
    (h : readLead ctx t = .ok (some lead)) (ht : t.head? = some c) (hc : isWordChar c) :
    ∃ text, lead.token = .literal text := by
  cases atFront_of_readLead h with
  | literal _ h =>
    obtain ⟨unit, rest, -, ⟨-, rfl⟩ | ⟨-, rfl⟩⟩ := readLiteral_eq_ok.1 h <;> exact ⟨_, rfl⟩
  | anchor hsign =>
    cases ht
    rcases hsign with rfl | rfl <;> cases hc
  | _ =>
    cases ht
    cases hc

/-- A block that is written as a word is a literal with nothing behind it. -/
theorem Cursor.next_word {s s' : Cursor} {b : Block} (h : s.next = .ok (some (b, s')))
    (hw : IsWord b.canonicalText) :
    b.token = .literal b.canonicalText ∧ b.suffix = {} ∧ b.loose = [] := by
  obtain ⟨hne, hw⟩ := hw
  rcases Cursor.next_cases h with ⟨items, rest, ht, hi, rfl, -⟩ |
    ⟨-, lead, repetition, items, rest, hl, hr, rfl, -⟩
  · obtain ⟨ht, -⟩ := readTrivia_eq_ok.1 ht
    have hitems := @takeTrivia_not_word s.mode.freeSpacing s.unread
    rw [ht] at hitems
    have hw : ∀ c ∈ triviaText items, isWordChar c := by
      simpa [Block.canonicalText, Cursor.layoutBlock, Token.text] using hw
    exact absurd (eq_nil_of_word hitems hw) hi
  · simp only [Block.canonicalText, List.append_assoc, List.forall_mem_append] at hw
    obtain ⟨htoken, hw⟩ := hw
    obtain ⟨htext, hnil⟩ := readLead_covers hl
    obtain ⟨c, more, hc⟩ := List.exists_cons_of_ne_nil hnil
    obtain ⟨text, hlit⟩ := readLead_of_word hl (c := c) (by rw [← htext, hc]; rfl)
      (htoken c (by simp [hc]))
    have htail : (repetition.map Repetition.suffix).getD {} = {} ∧ items = [] ∧
        (repetition.map Repetition.canonicalText).getD [] = [] := by
      unfold Lead.readTail at hr
      split at hr
      · exact readRepetition_of_word hr (List.forall_mem_append.2 hw)
      · cases hr
        exact ⟨rfl, rfl, rfl⟩
    obtain ⟨hsuffix, rfl, hcanonical⟩ := htail
    refine ⟨?_, hsuffix, ?_⟩
    · simp [Block.canonicalText, hlit, hcanonical, Token.text, triviaText]
    · simp only [Block.loose, Block.suffix, hsuffix, List.map_nil, List.append_nil]

/-- A character of a word is a literal unit everywhere, and starts no quantifier. -/
theorem splitUnit_word {c : Char} (hc : isWordChar c) :
    splitUnit free (c :: t) = some ([c], t) ∧ startsQuantifier (c :: t) = false := by
  have hnone : activeChars.all (! isWordChar ·) := by decide
  constructor
  · refine splitUnit_inert fun hactive => ?_
    have hnot := List.all_eq_true.1 hnone c hactive
    rw [hc] at hnot
    cases hnot
  · refine eq_false_of_ne_true fun h => ?_
    obtain ⟨d, rest, he, hd⟩ := exists_cons_of_startsQuantifier h
    obtain ⟨rfl, -⟩ := List.cons.inj he
    rcases hd with rfl | rfl | rfl | rfl <;> cases hc

theorem IsWord.startsToken_append {w : Text} (hw : IsWord w) : StartsToken free (w ++ rest) := by
  obtain ⟨c, hc, hword⟩ := hw.startsWord
  obtain ⟨more, rfl⟩ := List.head?_eq_some_iff.1 hc
  have hunit : splitUnit free (c :: (more ++ rest)) = some ([c], more ++ rest) :=
    (splitUnit_word hword).1
  exact ⟨splitTrivia_of_splitUnit hunit, startsComment_of_splitUnit hunit⟩

/-- Neither a word nor what shuts a look ahead out is taken for a quantifier. -/
theorem quantifierFollows_word_append {w : Text} (hw : ∀ c ∈ w, isWordChar c)
    (h : Shut free rest) : quantifierFollows free (w ++ rest) = false := by
  cases w with
  | nil =>
    rw [List.nil_append, quantifierFollows, takeTrivia_eq_nil h.trivia]
    exact h.quantifier
  | cons c w =>
    obtain ⟨hunit, hquantifier⟩ : splitUnit free (c :: (w ++ rest)) = some ([c], w ++ rest) ∧ _ :=
      splitUnit_word (hw c (by simp))
    rw [List.cons_append, quantifierFollows, takeTrivia_eq_nil (splitTrivia_of_splitUnit hunit)]
    exact hquantifier

theorem takeUnits_word_append {w : Text} (hw : ∀ c ∈ w, isWordChar c) (h : Shut free rest) :
    takeUnits free (quantifierFollows free) (w ++ rest) = (w, rest) := by
  induction w with
  | nil => exact takeUnits_eq_nil h.unit
  | cons c w ih =>
    obtain ⟨hc, hw⟩ := List.forall_mem_cons.1 hw
    rw [List.cons_append, takeUnits_of_some (splitUnit_word hc).1,
      quantifierFollows_word_append hw h, ih hw]
    rfl

/-- A word is read as one literal in front of what shuts a look ahead out. -/
theorem readLead_word_append {ctx : Context} {w : Text} (hw : IsWord w)
    (h : Shut ctx.mode.freeSpacing rest) :
    readLead ctx (w ++ rest) = .ok (some ⟨.literal w, rest, false⟩) := by
  obtain ⟨hne, hw⟩ := hw
  obtain ⟨c, w, rfl⟩ := List.exists_cons_of_ne_nil hne
  obtain ⟨hc, hw⟩ := List.forall_mem_cons.1 hw
  obtain ⟨hunit, hquantifier⟩ :
      splitUnit ctx.mode.freeSpacing (c :: (w ++ rest)) = some ([c], w ++ rest) ∧ _ :=
    splitUnit_word hc
  refine (Lead.AtFront.literal hquantifier (readLiteral_eq_ok.2 ⟨[c], w ++ rest, hunit,
    .inr ⟨quantifierFollows_word_append hw h, ?_⟩⟩)).readLead
  rw [takeUnits_word_append hw h]
  rfl

end Blocks

/-- A block that is written like the start of a word is literal text. -/
theorem Cursor.next_literal {s s' : Cursor} {b : Block} (h : s.next = .ok (some (b, s')))
    (hw : StartsWord b.canonicalText) : ∃ text, b.token = .literal text := by
  have hhead : (b.canonicalText ++ []).head? = s.unread.head? := Cursor.head_canonicalText h []
  rw [List.append_nil] at hhead
  obtain ⟨c, hc, hword⟩ := hw
  rw [hhead] at hc
  rcases Cursor.next_cases h with ⟨items, rest, ht, hi, -, -⟩ |
    ⟨-, lead, repetition, items, rest, hl, -, rfl, -⟩
  · obtain ⟨ht, -⟩ := readTrivia_eq_ok.1 ht
    cases hs : splitTrivia s.mode.freeSpacing s.unread with
    | none =>
      rw [takeTrivia_eq_nil hs] at ht
      exact absurd (Prod.mk.inj ht).1.symm hi
    | some found => exact absurd ⟨c, hc, hword⟩ (not_startsWord_of_splitTrivia hs)
  · exact readLead_of_word hl hc hword

theorem next_word_of_blocksOf {pattern : Text} {stream : Stream} {b : Block}
    (h : blocksOf pattern = .ok stream) (hb : b ∈ stream.blocks) (hw : IsWord b.canonicalText) :
    b.token = .literal b.canonicalText ∧ b.suffix = {} ∧ b.loose = [] := by
  obtain ⟨last, hc, -⟩ := blocksOf_eq_ok.1 h
  exact hc.forall_mem (fun _ _ _ => Cursor.next_word) b hb hw

theorem next_literal_of_blocksOf {pattern : Text} {stream : Stream} {b : Block}
    (h : blocksOf pattern = .ok stream) (hb : b ∈ stream.blocks)
    (hw : StartsWord b.canonicalText) : ∃ text, b.token = .literal text := by
  obtain ⟨last, hc, -⟩ := blocksOf_eq_ok.1 h
  exact hc.forall_mem (fun _ _ _ => Cursor.next_literal) b hb hw

end RegexAnatomy
