import RegexAnatomy.Proofs.Block.Whole

/-! Looking ahead. What a token, a quantifier or a comment is can depend on the text
behind it: on the trivia there, on a quantifier, on literal text that a quantifier
follows. Two texts look alike when no such look can tell them apart, and what is
read in front of a text is read again in front of one that looks alike. -/

namespace RegexAnatomy

structure Shut (free : Bool) (t : Text) : Prop where
  trivia : splitTrivia free t = none
  comment : startsComment t = false
  unit : splitUnit free t = none
  quantifier : startsQuantifier t = false

/-- No look ahead tells the texts apart, nor whether they end or open a group. -/
inductive Alike (free : Bool) : Text → Text → Prop
  | shut {t t' : Text} (h : Shut free t) (h' : Shut free t') (hnil : t = [] ↔ t' = [])
      (hopen : t.head? = some '(' ↔ t'.head? = some '(') : Alike free t t'
  | trivia {t t' a a' : Text} {item : Trivia} (h : splitTrivia free t = some (item, a))
      (h' : splitTrivia free t' = some (item, a')) (ha : Alike free a a') : Alike free t t'
  | quantifier {t t' : Text} (h : startsQuantifier t) (h' : startsQuantifier t') : Alike free t t'
  | unit {t t' a a' unit : Text} (h : splitUnit free t = some (unit, a))
      (h' : splitUnit free t' = some (unit, a')) (hq : startsQuantifier t = false)
      (hq' : startsQuantifier t' = false) (ha : Alike free a a') : Alike free t t'

section Starts

variable {free : Bool} {t : Text}

/-- What a text that starts a quantifier starts with. -/
theorem exists_cons_of_startsQuantifier (h : startsQuantifier t) :
    ∃ c rest, t = c :: rest ∧ (c = '*' ∨ c = '+' ∨ c = '?' ∨ c = '{') := by
  unfold startsQuantifier splitQuantifier at h
  split at h
  · exact ⟨_, _, rfl, .inl rfl⟩
  · exact ⟨_, _, rfl, .inr (.inl rfl)⟩
  · exact ⟨_, _, rfl, .inr (.inr (.inl rfl))⟩
  · exact ⟨_, _, rfl, .inr (.inr (.inr rfl))⟩
  · cases h

/-- What a text that starts with trivia starts with. -/
theorem exists_cons_of_splitTrivia {item : Trivia} {a : Text}
    (h : splitTrivia free t = some (item, a)) :
    ∃ c rest, t = c :: rest ∧ (startsComment t ∨ free ∧ (isBlank c ∨ c = '#')) := by
  unfold splitTrivia at h
  split at h
  · exact ⟨_, _, rfl, .inl rfl⟩
  · split at h
    next hfree =>
      unfold splitSpacing at h
      split at h
      next hb =>
        cases t with
        | nil => exact absurd rfl hb
        | cons c rest =>
          refine ⟨c, rest, rfl, .inr ⟨hfree, .inl ?_⟩⟩
          by_cases hc : isBlank c
          · exact hc
          · exact absurd (by simp [hc]) hb
      next =>
        split at h
        · exact ⟨_, _, rfl, .inr ⟨hfree, .inr rfl⟩⟩
        · cases h
    next => cases h

theorem exists_cons_of_startsComment (h : startsComment t) :
    ∃ rest, t = '(' :: '?' :: '#' :: rest := by
  unfold startsComment at h
  split at h
  · exact ⟨_, rfl⟩
  · cases h

theorem splitTrivia_eq_none {c : Char} {rest : Text} (hcomment : startsComment (c :: rest) = false)
    (hblank : isBlank c = false) (hhash : c ≠ '#') : splitTrivia free (c :: rest) = none := by
  refine Option.eq_none_iff_forall_ne_some.2 fun ⟨item, a⟩ ht => ?_
  obtain ⟨d, rest', he, hd⟩ := exists_cons_of_splitTrivia ht
  cases he
  rcases hd with hd | ⟨-, hd | hd⟩
  · rw [hcomment] at hd; cases hd
  · rw [hblank] at hd; cases hd
  · exact hhash hd

theorem splitTrivia_of_startsQuantifier (h : startsQuantifier t) : splitTrivia free t = none := by
  obtain ⟨c, rest, rfl, hc⟩ := exists_cons_of_startsQuantifier h
  rcases hc with rfl | rfl | rfl | rfl <;> exact splitTrivia_eq_none rfl rfl (by decide)

theorem splitUnit_cons {c : Char} {rest : Text} (hc : c ≠ '\\') :
    splitUnit free (c :: rest) =
      if isOperator c then none else if free && (isBlank c || c = '#') then none
      else some ([c], rest) := by
  unfold splitUnit
  split <;> simp_all

def activeChars : List Char :=
  ['\\', '[', '+', '*', '?', '(', ')', '|', '^', '$', ' ', '\t', '\r', '\n', '\x0c', '#']

theorem splitUnit_inert {c : Char} {rest : Text} (hc : c ∉ activeChars) :
    splitUnit free (c :: rest) = some ([c], rest) := by
  have hnone {marks : List Char} (h : marks ⊆ activeChars) : marks.contains c = false := by
    simpa only [List.contains_eq_mem, decide_eq_false_iff_not] using fun hm => hc (h hm)
  have hne {d : Char} (hd : d ∈ activeChars) : c ≠ d := by
    rintro rfl
    exact hc hd
  have hop : isOperator c = false := hnone (by decide)
  have hblank : isBlank c = false := hnone (by decide)
  rw [splitUnit_cons (hne (by decide)), hop, hblank]
  have hhash : c ≠ '#' := hne (by decide)
  simp [hhash]

theorem splitTrivia_of_splitUnit {unit a : Text} (h : splitUnit free t = some (unit, a)) :
    splitTrivia free t = none := by
  refine Option.eq_none_iff_forall_ne_some.2 fun ⟨item, b⟩ ht => ?_
  obtain ⟨c, rest, rfl, hc⟩ := exists_cons_of_splitTrivia ht
  rcases hc with hc | ⟨hfree, hc⟩
  · obtain ⟨rest', he⟩ := exists_cons_of_startsComment hc
    cases he
    rw [splitUnit_cons (by decide)] at h
    exact absurd h (by simp [isOperator])
  · have hne : c ≠ '\\' := by rintro rfl; revert hc; decide
    rw [splitUnit_cons hne, hfree] at h
    split at h
    · cases h
    · rcases hc with hc | hc <;> simp [hc] at h

theorem startsComment_of_splitUnit {unit a : Text} (h : splitUnit free t = some (unit, a)) :
    startsComment t = false := by
  cases hc : startsComment t with
  | false => rfl
  | true =>
    obtain ⟨rest, rfl⟩ := exists_cons_of_startsComment hc
    rw [splitUnit_cons (by decide)] at h
    exact absurd h (by simp [isOperator])

/-- An opening parenthesis that starts no comment ends every look ahead. -/
theorem shut_paren {rest : Text} (h : startsComment ('(' :: rest) = false) :
    Shut free ('(' :: rest) :=
  ⟨splitTrivia_eq_none h rfl (by decide), h, by rw [splitUnit_cons (by decide)]; rfl, rfl⟩

/-- So does any other operator that is no quantifier. -/
theorem shut_operator {c : Char} {rest : Text} (hc : c ∈ [')', '|', '^', '$', '[']) :
    Shut free (c :: rest) := by
  simp only [List.mem_cons, List.not_mem_nil, or_false] at hc
  rcases hc with rfl | rfl | rfl | rfl | rfl <;>
    exact ⟨splitTrivia_eq_none rfl rfl (by decide), rfl, by rw [splitUnit_cons (by decide)]; rfl,
      rfl⟩

/-- So does an escape that is no literal. -/
theorem shut_specialEscape {c : Char} {rest : Text} (hc : isSpecialEscape c) :
    Shut free ('\\' :: c :: rest) :=
  ⟨splitTrivia_eq_none rfl rfl (by decide), rfl, by simp [splitUnit, hc], rfl⟩

theorem shut_nil : Shut free [] := ⟨splitTrivia_nil free, rfl, rfl, rfl⟩

end Starts

namespace Alike

variable {free : Bool} {t t' : Text}

theorem symm (h : Alike free t t') : Alike free t' t := by
  induction h with
  | shut h h' hnil hopen => exact .shut h' h hnil.symm hopen.symm
  | trivia h h' _ ih => exact .trivia h' h ih
  | quantifier h h' => exact .quantifier h' h
  | unit h h' hq hq' _ ih => exact .unit h' h hq' hq ih

theorem startsQuantifier_eq (h : Alike free t t') : startsQuantifier t = startsQuantifier t' := by
  have of_trivia {t a : Text} {item : Trivia} (h : splitTrivia free t = some (item, a)) :
      startsQuantifier t = false := by
    cases hq : startsQuantifier t with
    | false => rfl
    | true => rw [splitTrivia_of_startsQuantifier hq] at h; cases h
  cases h with
  | shut h h' => rw [h.quantifier, h'.quantifier]
  | trivia h h' => rw [of_trivia h, of_trivia h']
  | quantifier h h' => rw [h, h']
  | unit h h' hq hq' => rw [hq, hq']

theorem takeTrivia_of_some {t a : Text} {item : Trivia} (h : splitTrivia free t = some (item, a)) :
    takeTrivia free t = (item :: (takeTrivia free a).1, (takeTrivia free a).2) := by
  rw [takeTrivia]
  split
  next hn => rw [h] at hn; cases hn
  next hs => rw [h] at hs; cases hs; rfl

/-- The same trivia stand in front of both, and what is behind them looks alike too. -/
theorem takeTrivia (h : Alike free t t') :
    (takeTrivia free t).1 = (takeTrivia free t').1 ∧
      Alike free (takeTrivia free t).2 (takeTrivia free t').2 := by
  induction h with
  | shut h h' hnil hopen =>
    rw [takeTrivia_eq_nil h.trivia, takeTrivia_eq_nil h'.trivia]
    exact ⟨rfl, .shut h h' hnil hopen⟩
  | trivia h h' _ ih =>
    rw [takeTrivia_of_some h, takeTrivia_of_some h']
    exact ⟨congrArg (_ :: ·) ih.1, ih.2⟩
  | quantifier h h' =>
    rw [takeTrivia_eq_nil (splitTrivia_of_startsQuantifier h),
      takeTrivia_eq_nil (splitTrivia_of_startsQuantifier h')]
    exact ⟨rfl, .quantifier h h'⟩
  | unit h h' hq hq' ha =>
    rw [takeTrivia_eq_nil (splitTrivia_of_splitUnit h),
      takeTrivia_eq_nil (splitTrivia_of_splitUnit h')]
    exact ⟨rfl, .unit h h' hq hq' ha⟩

theorem quantifierFollows_eq (h : Alike free t t') :
    quantifierFollows free t = quantifierFollows free t' := h.takeTrivia.2.startsQuantifier_eq

theorem splitTrivia_eq_none_iff (h : Alike free t t') :
    splitTrivia free t = none ↔ splitTrivia free t' = none := by
  cases h with
  | shut h h' => simp [h.trivia, h'.trivia]
  | trivia h h' => simp [h, h']
  | quantifier h h' =>
    simp [splitTrivia_of_startsQuantifier h, splitTrivia_of_startsQuantifier h']
  | unit h h' => simp [splitTrivia_of_splitUnit h, splitTrivia_of_splitUnit h']

end Alike

section Bounds

def isBoundChar (c : Char) : Bool := c.isDigit || c = ',' || c = '}'

variable {free : Bool} {c : Char} {a t t' : Text}

theorem splitUnit_boundChar (hc : isBoundChar c) : splitUnit free (c :: a) = some ([c], a) := by
  have hnone : activeChars.all (! isBoundChar ·) := by decide
  refine splitUnit_inert fun hactive => ?_
  have hnot := List.all_eq_true.1 hnone c hactive
  rw [hc] at hnot
  cases hnot

theorem startsQuantifier_boundChar (hc : isBoundChar c) : startsQuantifier (c :: a) = false := by
  cases hq : startsQuantifier (c :: a) with
  | false => rfl
  | true =>
    obtain ⟨d, rest, he, hd⟩ := exists_cons_of_startsQuantifier hq
    cases he
    rcases hd with rfl | rfl | rfl | rfl <;> exact absurd hc (by decide)

theorem Alike.of_boundChar (h : Alike free (c :: a) t') (hc : isBoundChar c) :
    ∃ a', t' = c :: a' ∧ Alike free a a' := by
  have hu : splitUnit free (c :: a) = some ([c], a) := splitUnit_boundChar hc
  generalize ht : c :: a = t at h
  subst ht
  cases h with
  | shut h => rw [h.unit] at hu; cases hu
  | trivia h => rw [splitTrivia_of_splitUnit hu] at h; cases h
  | quantifier h => rw [startsQuantifier_boundChar hc] at h; cases h
  | unit h h' hq hq' ha =>
    rw [hu] at h; cases h
    exact ⟨_, (splitUnit_append h').1.symm, ha⟩

/-- The same bound characters stand in front of both. -/
theorem Alike.digits (h : Alike free t t') :
    t.takeWhile Char.isDigit = t'.takeWhile Char.isDigit ∧
      Alike free (t.dropWhile Char.isDigit) (t'.dropWhile Char.isDigit) := by
  induction t generalizing t' with
  | nil =>
    cases t' with
    | nil => exact ⟨rfl, h⟩
    | cons c a' =>
      by_cases hc : c.isDigit
      · obtain ⟨a, he, -⟩ := h.symm.of_boundChar (by simp [isBoundChar, hc])
        cases he
      · simpa [hc] using h
  | cons c a ih =>
    by_cases hc : c.isDigit
    · obtain ⟨a', rfl, ha⟩ := h.of_boundChar (by simp [isBoundChar, hc])
      simpa [hc] using ih ha
    · have hnot : t'.takeWhile Char.isDigit = [] ∧ t'.dropWhile Char.isDigit = t' := by
        cases t' with
        | nil => exact ⟨rfl, rfl⟩
        | cons d a' =>
          by_cases hd : d.isDigit
          · obtain ⟨b, he, -⟩ := h.symm.of_boundChar (by simp [isBoundChar, hd])
            cases he
            exact absurd hd hc
          · simp [hd]
      rw [hnot.1, hnot.2]
      simpa [hc] using h

theorem splitBounds_isSome_iff : (splitBounds t).isSome ↔ t.takeWhile Char.isDigit ≠ [] ∧
    ((∃ a, t.dropWhile Char.isDigit = '}' :: a) ∨ ∃ a, t.dropWhile Char.isDigit = ',' :: a ∧
      ∃ b, a.dropWhile Char.isDigit = '}' :: b) := by
  simp only [splitBounds]
  split
  next h => simp [h]
  next h =>
    split
    next hr => simp [h, hr]
    next u hr => split <;> simp_all
    next => simp_all

/-- An opening brace starts a quantifier in front of both or of neither. -/
theorem Alike.startsQuantifier_brace (h : Alike free t t') :
    startsQuantifier ('{' :: t) = startsQuantifier ('{' :: t') := by
  have key {t t' : Text} (h : Alike free t t') (hs : (splitBounds t).isSome) :
      (splitBounds t').isSome := by
    obtain ⟨hd, hrest⟩ := splitBounds_isSome_iff.1 hs
    refine splitBounds_isSome_iff.2 ⟨h.digits.1 ▸ hd, ?_⟩
    have hdrop := h.digits.2
    rcases hrest with ⟨a, ha⟩ | ⟨a, ha, b, hb⟩
    · rw [ha] at hdrop
      obtain ⟨a', ha', -⟩ := hdrop.of_boundChar rfl
      exact .inl ⟨a', ha'⟩
    · rw [ha] at hdrop
      obtain ⟨a', ha', halike⟩ := hdrop.of_boundChar rfl
      have hdrop' := halike.digits.2
      rw [hb] at hdrop'
      obtain ⟨b', hb', -⟩ := hdrop'.of_boundChar rfl
      exact .inr ⟨a', ha', b', hb'⟩
  exact Bool.eq_iff_iff.2 ⟨key h, key h.symm⟩

end Bounds

/-- A front of a text, with more behind it that does not go on with it. -/
theorem takeWhile_append_stop {p : Char → Bool} {t more : Text}
    (h : t.all p → ∀ c ∈ more.head?, p c = false) :
    (t ++ more).takeWhile p = t.takeWhile p ∧
      (t ++ more).dropWhile p = t.dropWhile p ++ more := by
  induction t with
  | nil =>
    cases more with
    | nil => exact ⟨rfl, rfl⟩
    | cons c more => simp [h rfl c rfl]
  | cons d t ih =>
    by_cases hd : p d
    · have := ih fun ht => h (by simp [hd, ht])
      simpa [hd] using this
    · simp [hd]

/-- A run of characters, and a text that does not go on with it. -/
theorem takeWhile_append_exact {p : Char → Bool} {w r : Text} (hw : ∀ c ∈ w, p c)
    (hr : ∀ c ∈ r.head?, p c = false) :
    (w ++ r).takeWhile p = w ∧ (w ++ r).dropWhile p = r := by
  have h := takeWhile_append_stop (t := w) fun _ => hr
  rwa [List.takeWhile_eq_self_iff.2 hw, List.dropWhile_eq_nil_iff.2 hw, List.nil_append] at h

/-- A longest run is found again in front of any text that does not go on with it. -/
theorem takeWhile_again {p : Char → Bool} (t : Text) {r : Text} (hr : ∀ c ∈ r.head?, p c = false) :
    (t.takeWhile p ++ r).takeWhile p = t.takeWhile p ∧
      (t.takeWhile p ++ r).dropWhile p = r :=
  takeWhile_append_exact (fun _ => List.mem_takeWhile_imp) hr

section Again

variable {free : Bool} {t a a' : Text}

theorem Alike.eq_nil (h : Alike free [] t) : t = [] := by
  generalize hs : ([] : Text) = s at h
  subst hs
  cases h with
  | shut _ _ hnil => exact hnil.1 rfl
  | trivia h => rw [splitTrivia_nil] at h; cases h
  | quantifier h => cases h
  | unit h => cases h

theorem splitTrivia_blank {c : Char} (hc : isBlank c) :
    splitTrivia true (c :: a) =
      some (⟨.blanks, (c :: a).takeWhile isBlank⟩, (c :: a).dropWhile isBlank) := by
  have hne : c ≠ '(' := by rintro rfl; revert hc; decide
  unfold splitTrivia
  split
  next he => cases he; exact absurd rfl hne
  next => simp [splitSpacing, hc]

/-- Where spacing is free, a blank stands in front of both or of neither. -/
theorem Alike.of_blank {c : Char} (h : Alike true (c :: a) t) (hc : isBlank c) :
    ∃ b, t = c :: b := by
  have hs := splitTrivia_blank (a := a) hc
  generalize hca : c :: a = s at h
  subst hca
  cases h with
  | shut h => rw [h.trivia] at hs; cases hs
  | trivia h h' =>
    rw [hs] at h; cases h
    obtain ⟨ht, -⟩ := splitTrivia_append h'
    rw [← ht, List.takeWhile_cons, if_pos hc]
    exact ⟨_, rfl⟩
  | quantifier h => rw [splitTrivia_of_startsQuantifier h] at hs; cases hs
  | unit h => rw [splitTrivia_of_splitUnit h] at hs; cases hs

theorem Alike.not_blank (h : Alike true a a') (ha : ∀ c ∈ a.head?, isBlank c = false) :
    ∀ c ∈ a'.head?, isBlank c = false := by
  intro c hc
  cases hb : isBlank c with
  | false => rfl
  | true =>
    cases a' with
    | nil => cases hc
    | cons d r =>
      cases hc
      obtain ⟨b, rfl⟩ := h.symm.of_blank hb
      rw [ha c rfl] at hb
      cases hb

theorem not_of_mem_head?_dropWhile {p : Char → Bool} {c : Char} (h : c ∈ (t.dropWhile p).head?) :
    p c = false := by
  have := List.head?_dropWhile_not p t
  rw [Option.mem_def.1 h] at this
  exact this

/-- A piece of trivia is read again in front of a text that looks alike. -/
theorem splitTrivia_again {item : Trivia} (h : splitTrivia free t = some (item, a))
    (ha : Alike free a a') : splitTrivia free (item.text ++ a') = some (item, a') := by
  unfold splitTrivia at h
  split at h
  next inside =>
    split at h
    next hr =>
      cases h
      have hclose : ∀ c ∈ (')' :: a').head?, (decide (c ≠ ')')) = false := by simp
      obtain ⟨h1, h2⟩ := takeWhile_again inside hclose
      simp only [List.cons_append, List.append_assoc, List.nil_append, splitTrivia, h1, h2]
    next => cases h
  next =>
    split at h
    next hfree =>
      subst hfree
      unfold splitSpacing at h
      split at h
      next hb =>
        cases h
        obtain ⟨h1, h2⟩ := takeWhile_again t (ha.not_blank fun c => not_of_mem_head?_dropWhile)
        cases t with
        | nil => exact absurd rfl hb
        | cons c rest =>
          by_cases hc : isBlank c
          · rw [List.takeWhile_cons, if_pos hc] at h1 h2 ⊢
            rw [List.cons_append, splitTrivia_blank hc, ← List.cons_append, h1, h2]
          · exact absurd (by simp [hc]) hb
      next =>
        split at h
        next rest _ _ =>
          cases h
          -- the comment ended at the end of its line, or of the whole text
          have hend : ∀ c ∈ a'.head?, (! isLineEnd c) = false := by
            cases hd : rest.dropWhile (! isLineEnd ·) with
            | nil =>
              rw [hd] at ha
              simp [ha.eq_nil]
            | cons c r =>
              have hc : isLineEnd c := by
                have hhead : c ∈ (rest.dropWhile (! isLineEnd ·)).head? := by rw [hd]; rfl
                simpa using not_of_mem_head?_dropWhile hhead
              have hblank : isBlank c := by
                simp only [isLineEnd, decide_eq_true_eq] at hc
                rcases hc with rfl | rfl <;> rfl
              rw [hd] at ha
              obtain ⟨b, rfl⟩ := ha.of_blank hblank
              simp [hc]
          obtain ⟨h1, h2⟩ := takeWhile_again rest hend
          rw [List.cons_append]
          simpa [splitTrivia, splitSpacing, isBlank] using And.intro h1 h2
        next => cases h
    next => cases h

/-- All the trivia are read again in front of a text that looks alike. -/
theorem takeTrivia_again (ha : Alike free (takeTrivia free t).2 a') :
    takeTrivia free (triviaText (takeTrivia free t).1 ++ a') = ((takeTrivia free t).1, a') ∧
      Alike free t (triviaText (takeTrivia free t).1 ++ a') := by
  fun_induction takeTrivia free t with
  | case1 t h => exact ⟨takeTrivia_eq_nil (ha.splitTrivia_eq_none_iff.1 h), ha⟩
  | case2 t item rest h hl more after he ih =>
    rw [he] at ih
    obtain ⟨htake, halike⟩ := ih ha
    have hs := splitTrivia_again h halike
    have htext : triviaText (item :: more) ++ a' = item.text ++ (triviaText more ++ a') := by
      simp [triviaText]
    rw [htext]
    refine ⟨?_, .trivia h hs halike⟩
    rw [Alike.takeTrivia_of_some hs, htake]

theorem splitUnit_again {unit : Text} (h : splitUnit free t = some (unit, a)) (a' : Text) :
    splitUnit free (unit ++ a') = some (unit, a') := by
  unfold splitUnit at h
  split at h
  · cases h
  · cases h
  next c rest =>
    split at h <;> cases h
    next hc => simp [splitUnit, hc]
  next c rest hne1 hne2 =>
    have hc : c ≠ '\\' := by
      rintro rfl
      cases rest with
      | nil => exact hne1 rfl rfl
      | cons d rest => exact hne2 d rest rfl rfl
    split at h
    · cases h
    next hop =>
      split at h <;> cases h
      next hblank => rw [List.singleton_append, splitUnit_cons hc, if_neg hop, if_neg hblank]

/-- A unit that starts no quantifier starts none in front of a text that looks alike. -/
theorem Alike.of_unit {unit : Text} (h : splitUnit free t = some (unit, a))
    (hq : startsQuantifier t = false) (ha : Alike free a a') :
    startsQuantifier (unit ++ a') = false ∧ Alike free t (unit ++ a') := by
  have hq' : startsQuantifier (unit ++ a') = false := by
    obtain ⟨ht, hne⟩ := splitUnit_append h
    cases hs : startsQuantifier (unit ++ a') with
    | false => rfl
    | true =>
      obtain ⟨c, rest, he, hc⟩ := exists_cons_of_startsQuantifier hs
      cases unit with
      | nil => exact absurd rfl hne
      | cons d unit =>
        obtain ⟨rfl, -⟩ := List.cons.inj he
        subst ht
        rw [List.cons_append, splitUnit_cons (by rintro rfl; revert hc; decide)] at h
        rcases hc with rfl | rfl | rfl | rfl
        · cases h
        · cases h
        · cases h
        -- a lone brace: the text behind it decides
        · obtain ⟨rfl, -⟩ : [] = unit ∧ unit ++ a = a := by simpa [isOperator, isBlank] using h
          rw [List.singleton_append] at hq hs
          rw [ha.startsQuantifier_brace, hs] at hq
          cases hq
  exact ⟨hq', .unit h (splitUnit_again h a') hq hq' ha⟩

theorem Alike.splitUnit_none (h : Alike free t a) (hu : splitUnit free t = none)
    (hq : startsQuantifier t = false) : splitUnit free a = none := by
  cases h with
  | shut _ h' => exact h'.unit
  | trivia _ h' =>
    refine Option.eq_none_iff_forall_ne_some.2 fun ⟨u, b⟩ hs => ?_
    rw [splitTrivia_of_splitUnit hs] at h'
    cases h'
  | quantifier h => rw [hq] at h; cases h
  | unit h => rw [hu] at h; cases h

theorem Alike.splitUnit_some {unit b : Text} (h : Alike free t a)
    (hu : splitUnit free t = some (unit, b)) (hq : startsQuantifier t = false) :
    ∃ b', splitUnit free a = some (unit, b') ∧ Alike free b b' := by
  cases h with
  | shut h => rw [h.unit] at hu; cases hu
  | trivia h => rw [splitTrivia_of_splitUnit hu] at h; cases h
  | quantifier h => rw [hq] at h; cases h
  | unit h h' _ _ hb => rw [hu] at h; cases h; exact ⟨_, h', hb⟩

theorem takeUnits_eq_nil {stop : Text → Bool} (h : splitUnit free t = none) :
    takeUnits free stop t = ([], t) := by
  unfold takeUnits
  split
  · rfl
  next hs => rw [h] at hs; cases hs

theorem takeUnits_of_some {stop : Text → Bool} {unit : Text}
    (h : splitUnit free t = some (unit, a)) :
    takeUnits free stop t =
      if stop a then ([], t)
      else (unit ++ (takeUnits free stop a).1, (takeUnits free stop a).2) := by
  rw [takeUnits]
  split
  next hn => rw [h] at hn; cases hn
  next hs => rw [h] at hs; cases hs; rfl

/-- A run of units is read again in front of a text that looks alike, if `stop` sees quantifiers
and no more than a look ahead does. -/
theorem takeUnits_again {stop : Text → Bool} (hstop : ∀ t t', Alike free t t' → stop t = stop t')
    (hq : ∀ t, startsQuantifier t → stop t) (hs : stop t = false)
    (ha : Alike free (takeUnits free stop t).2 a') :
    takeUnits free stop ((takeUnits free stop t).1 ++ a') = ((takeUnits free stop t).1, a') ∧
      Alike free t ((takeUnits free stop t).1 ++ a') := by
  have hnot {t : Text} (hs : stop t = false) : startsQuantifier t = false := by
    cases h : startsQuantifier t with
    | false => rfl
    | true => rw [hq t h] at hs; cases hs
  fun_induction takeUnits free stop t with
  | case1 t h => exact ⟨takeUnits_eq_nil (ha.splitUnit_none h (hnot hs)), ha⟩
  | case2 t unit rest h hl hstopped =>
    obtain ⟨rest', hu, hrest⟩ := ha.splitUnit_some h (hnot hs)
    refine ⟨?_, ha⟩
    rw [List.nil_append, takeUnits_of_some hu, if_pos (by rw [← hstop _ _ hrest, hstopped])]
  | case3 t unit rest h hl hgo more after he ih =>
    rw [he] at ih
    obtain ⟨htake, halike⟩ := ih (by simpa using hgo) ha
    obtain ⟨-, hunit⟩ := Alike.of_unit h (hnot hs) halike
    rw [List.append_assoc]
    refine ⟨?_, hunit⟩
    rw [takeUnits_of_some (splitUnit_again h _), ← hstop _ _ halike, if_neg hgo, htake]

theorem quantifierFollows_of_startsQuantifier (h : startsQuantifier t) :
    quantifierFollows free t := by
  rw [quantifierFollows, takeTrivia_eq_nil (splitTrivia_of_startsQuantifier h)]
  exact h

end Again

end RegexAnatomy
