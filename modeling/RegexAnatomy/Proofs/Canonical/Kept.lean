import RegexAnatomy.Proofs.Reading.Derivation

/-! What canonical spelling leaves of a quantifier. Either nothing is left of it and
of its lazy mark, or a quantifier that is canonical itself, with its mark or without.
The trivia around what is gone are strays: they stay in the text without belonging
to a quantifier. -/

namespace RegexAnatomy

def IsQuantifier (q : Text) : Prop := splitQuantifier q = some (q, [])

def lazyText (lazy : Bool) : Text := if lazy then ['?'] else []

inductive IsCounts : Text → Prop
  | exact {least : Text} (hl : least ≠ []) (hd : ∀ c ∈ least, c.isDigit) : IsCounts least
  | range {least most : Text} (hl : least ≠ []) (hd : ∀ c ∈ least, c.isDigit)
      (hm : ∀ c ∈ most, c.isDigit) : IsCounts (least ++ ',' :: most)

def braced (counts : Text) : Text := '\x7b' :: counts ++ ['\x7d']

section Shapes

variable {q t rest least most : Text}

theorem isQuantifier_of_split (h : splitQuantifier t = some (q, rest)) : IsQuantifier q := by
  have hq := splitQuantifier_again h []
  rwa [List.append_nil] at hq

theorem IsCounts.isQuantifier (h : IsCounts t) : IsQuantifier (braced t) := by
  cases h with
  | exact hl hd =>
    obtain ⟨h1, h2⟩ := takeWhile_append_exact (r := ['\x7d']) hd (by simp)
    simp [IsQuantifier, braced, splitQuantifier, splitBounds, h1, h2, hl]
  | @range least most hl hd hm =>
    obtain ⟨h1, h2⟩ := takeWhile_append_exact (r := ['\x7d']) hm (by simp)
    obtain ⟨h3, h4⟩ := takeWhile_append_exact (r := ',' :: (most ++ ['\x7d'])) hd (by simp)
    simp [IsQuantifier, braced, splitQuantifier, splitBounds, h1, h2, h3, h4, hl]

theorem exists_counts_of_splitBounds (h : splitBounds t = some (q, rest)) :
    ∃ counts, IsCounts counts ∧ q = braced counts := by
  simp only [splitBounds] at h
  split at h
  · cases h
  next hl =>
    split at h
    next =>
      cases h
      exact ⟨_, .exact hl fun _ => List.mem_takeWhile_imp, rfl⟩
    next u _ =>
      split at h <;> cases h
      exact ⟨_, .range hl (fun _ => List.mem_takeWhile_imp)
        fun _ => List.mem_takeWhile_imp (l := u), by simp [braced]⟩
    · cases h

theorem IsQuantifier.cases (h : IsQuantifier q) :
    q = ['*'] ∨ q = ['+'] ∨ q = ['?'] ∨ ∃ counts, IsCounts counts ∧ q = braced counts := by
  unfold IsQuantifier splitQuantifier at h
  split at h
  case h_4 => exact .inr (.inr (.inr (exists_counts_of_splitBounds h)))
  case h_5 => cases h
  all_goals
    obtain ⟨-, rfl⟩ := Prod.mk.inj (Option.some.inj h)
    simp

end Shapes

section Canonical

variable {q counts least most mark : Text} {lazy : Bool}

theorem comma_not_mem (hd : ∀ c ∈ least, c.isDigit) : ',' ∉ least := fun hc => by
  cases hd ',' hc

theorem comma_split (h : ',' ∉ least) (most : Text) :
    least.takeWhile (· ≠ ',') = least ∧ least.dropWhile (· ≠ ',') = [] ∧
      (least ++ ',' :: most).takeWhile (· ≠ ',') = least ∧
      (least ++ ',' :: most).dropWhile (· ≠ ',') = ',' :: most := by
  have hne : ∀ c ∈ least, decide (c ≠ ',') = true := by
    intro c hc
    refine decide_eq_true ?_
    rintro rfl
    exact h hc
  exact ⟨List.takeWhile_eq_self_iff.2 hne, List.dropWhile_eq_nil_iff.2 hne,
    takeWhile_append_exact hne (by simp)⟩

theorem shortBounds_exact (h : ',' ∉ least) :
    shortBounds least mark = if least = ['1'] then some [] else some (braced least) := by
  obtain ⟨h1, h2, -⟩ := comma_split h []
  simp only [shortBounds, h1, h2]
  rfl

theorem shortBounds_range (h : ',' ∉ least) (most : Text) :
    shortBounds (least ++ ',' :: most) mark =
      if least = ['0'] ∧ (most = [] ∨ most = unboundedCount) then some ('*' :: mark)
      else if least = ['1'] ∧ (most = [] ∨ most = unboundedCount) then some ('+' :: mark)
      else if least = ['0'] ∧ most = ['1'] then some ('?' :: mark)
      else if least = ['1'] ∧ most = ['1'] then some []
      else if least = most then some (braced least)
      else none := by
  obtain ⟨-, -, h3, h4⟩ := comma_split h most
  simp only [shortBounds, h3, h4]
  rfl

/-- A shorter spelling of counts is a sign, or an exact count, or nothing. -/
theorem shortBounds_cases (hc : IsCounts counts) (mark : Text) :
    shortBounds counts mark = none ∨ shortBounds counts mark = some [] ∨
      (∃ sign, (sign = '*' ∨ sign = '+' ∨ sign = '?') ∧
        shortBounds counts mark = some (sign :: mark)) ∨
      ∃ least, least ≠ [] ∧ least ≠ ['1'] ∧ (∀ c ∈ least, c.isDigit) ∧
        shortBounds counts mark = some (braced least) := by
  cases hc with
  | exact hl hd =>
    rw [shortBounds_exact (comma_not_mem hd)]
    split
    · exact .inr (.inl rfl)
    next hone => exact .inr (.inr (.inr ⟨_, hl, hone, hd, rfl⟩))
  | @range least most hl hd hm =>
    rw [shortBounds_range (comma_not_mem hd)]
    split
    · exact .inr (.inr (.inl ⟨'*', .inl rfl, rfl⟩))
    split
    · exact .inr (.inr (.inl ⟨'+', .inr (.inl rfl), rfl⟩))
    split
    · exact .inr (.inr (.inl ⟨'?', .inr (.inr rfl), rfl⟩))
    split
    · exact .inr (.inl rfl)
    next hone =>
      split
      next he =>
        refine .inr (.inr (.inr ⟨least, hl, ?_, hd, rfl⟩))
        rintro rfl
        exact hone ⟨rfl, he.symm⟩
      next => exact .inl rfl

theorem canonicalRepetition_braced (counts : Text) (lazy : Bool) :
    canonicalRepetition (braced counts) lazy =
      (shortBounds counts (lazyText lazy)).getD (braced counts ++ lazyText lazy) := by
  cases lazy <;>
    simp [canonicalRepetition, canonicalQuantifier, braced, lazyText]

theorem canonicalRepetition_sign {sign : Char} (h : sign = '*' ∨ sign = '+' ∨ sign = '?') :
    canonicalRepetition [sign] lazy = sign :: lazyText lazy := by
  rcases h with rfl | rfl | rfl <;> cases lazy <;> rfl

theorem isQuantifier_sign {sign : Char} (h : sign = '*' ∨ sign = '+' ∨ sign = '?') :
    IsQuantifier [sign] := by
  rcases h with rfl | rfl | rfl <;> rfl

/-- In canonical spelling nothing is left of a quantifier, or it keeps its lazy mark, or it is an
exact count without one. -/
theorem canonicalRepetition_cases (h : IsQuantifier q) (lazy : Bool) :
    canonicalRepetition q lazy = [] ∨
      (∃ q', IsQuantifier q' ∧ canonicalRepetition q lazy = q' ++ lazyText lazy ∧
        canonicalRepetition q' lazy = q' ++ lazyText lazy) ∨
      ∃ least, IsQuantifier (braced least) ∧ canonicalRepetition q lazy = braced least ∧
        canonicalRepetition (braced least) false = braced least := by
  have sign {c : Char} (hc : c = '*' ∨ c = '+' ∨ c = '?') (hq : canonicalRepetition q lazy =
      c :: lazyText lazy) : ∃ q', IsQuantifier q' ∧
        canonicalRepetition q lazy = q' ++ lazyText lazy ∧
        canonicalRepetition q' lazy = q' ++ lazyText lazy :=
    ⟨[c], isQuantifier_sign hc, hq, canonicalRepetition_sign hc⟩
  rcases h.cases with rfl | rfl | rfl | ⟨counts, hc, rfl⟩
  · exact .inr (.inl (sign (.inl rfl) (canonicalRepetition_sign (.inl rfl))))
  · exact .inr (.inl (sign (.inr (.inl rfl)) (canonicalRepetition_sign (.inr (.inl rfl)))))
  · exact .inr (.inl (sign (.inr (.inr rfl)) (canonicalRepetition_sign (.inr (.inr rfl)))))
  · have hq := canonicalRepetition_braced counts lazy
    rcases shortBounds_cases hc (lazyText lazy) with
      hs | hs | ⟨c, hsign, hs⟩ | ⟨least, hl, hone, hd, hs⟩ <;> rw [hs] at hq
    · exact .inr (.inl ⟨_, h, hq, hq⟩)
    · exact .inl hq
    · exact .inr (.inl (sign hsign hq))
    · refine .inr (.inr ⟨least, (IsCounts.exact hl hd).isQuantifier, hq, ?_⟩)
      rw [canonicalRepetition_braced, shortBounds_exact (comma_not_mem hd), if_neg hone]
      rfl

end Canonical

def Repetition.kept (r : Repetition) : Option Repetition :=
  let quantifier := canonicalRepetition r.quantifier r.lazyMark.isSome
  if quantifier = [] then none
  else if r.lazyMark.isSome ∧ quantifier.getLast? = some '?' then
    some { r with quantifier := quantifier.dropLast }
  else some { r with quantifier, lazyMark := none }

/-- The trivia that belonged to what canonical spelling takes away. -/
def Repetition.strays (r : Repetition) : List Trivia :=
  let quantifier := canonicalRepetition r.quantifier r.lazyMark.isSome
  if quantifier = [] then r.before ++ r.lazyMark.getD []
  else if r.lazyMark.isSome ∧ quantifier.getLast? = some '?' then []
  else r.lazyMark.getD []

section Kept

variable {r k : Repetition}

theorem triviaText_append (s t : List Trivia) :
    triviaText (s ++ t) = triviaText s ++ triviaText t :=
  List.flatMap_append

theorem Repetition.canonicalText_eq (r : Repetition) :
    r.canonicalText = (r.kept.map Repetition.text).getD [] ++ triviaText r.strays := by
  rcases r with ⟨before, quantifier, lazyMark⟩
  simp only [Repetition.canonicalText, Repetition.kept, Repetition.strays]
  generalize canonicalRepetition quantifier lazyMark.isSome = short
  by_cases hnil : short = []
  · simp [hnil, triviaText_append]
  · rw [if_neg hnil, if_neg hnil]
    split
    next h =>
      obtain ⟨items, rfl⟩ := Option.isSome_iff_exists.1 h.1
      simp [Repetition.text, triviaText]
    next => simp [Repetition.text]

/-- What is left is canonical, and a quantifier still. -/
theorem Repetition.kept_isCanonical (h : IsQuantifier r.quantifier) (hk : r.kept = some k) :
    k.IsCanonical ∧ IsQuantifier k.quantifier := by
  rcases r with ⟨before, quantifier, lazyMark⟩
  replace h : IsQuantifier quantifier := h
  have brace (counts : Text) : (braced counts).getLast? = some '\x7d' := List.getLast?_concat
  simp only [Repetition.kept] at hk
  split at hk
  · cases hk
  next hnil =>
    rcases canonicalRepetition_cases h lazyMark.isSome with he | ⟨q, hq, he, hagain⟩ |
      ⟨least, hq, he, hagain⟩
    · exact absurd he hnil
    · cases lazyMark with
      | none =>
        rw [if_neg (by simp)] at hk
        cases hk
        simp only [Option.isSome_none, lazyText] at he hagain
        simp [Repetition.IsCanonical, he, hagain, hq]
      | some items =>
        simp only [Option.isSome_some, lazyText] at he hagain hk
        rw [he] at hk
        simp only [if_true, List.getLast?_append, List.getLast?_singleton, Option.some_or, and_self,
          List.dropLast_concat, Option.some.injEq] at hk
        subst hk
        exact ⟨hagain, hq⟩
    · rw [he, brace, if_neg (by simp)] at hk
      cases hk
      simp [Repetition.IsCanonical, hagain, hq]

/-- A canonical quantifier gives to the tree what is written. -/
theorem Repetition.IsCanonical.suffix_eq (h : r.IsCanonical) : r.suffix =
    { before := r.before.map Trivia.node
      quantifier := r.quantifier ++ match r.lazyMark with
        | none => []
        | some items => triviaText items ++ ['?'] } := by
  rcases r with ⟨before, quantifier, - | ⟨- | ⟨item, items⟩⟩⟩
  · replace h : canonicalRepetition quantifier false = quantifier ++ [] := h
    simp [Repetition.suffix, h]
  · replace h : canonicalRepetition quantifier true = quantifier ++ ['?'] := h
    simp [Repetition.suffix, h, triviaText]
  · replace h : canonicalRepetition quantifier true = quantifier ++ ['?'] := h
    simp [Repetition.suffix, h]

/-- The suffix of what is left, and the strays, are what the quantifier gave to the tree. -/
theorem Repetition.suffix_kept (hc : k.IsCanonical) (hk : r.kept = some k) :
    k.suffix.before = r.suffix.before ∧ k.suffix.quantifier = r.suffix.quantifier ∧
      r.suffix.after = r.strays.map Trivia.node := by
  rw [hc.suffix_eq]
  rcases r with ⟨before, quantifier, lazyMark⟩
  simp only [Repetition.kept, Repetition.strays, Repetition.suffix] at hk ⊢
  generalize canonicalRepetition quantifier lazyMark.isSome = short at hk ⊢
  split at hk
  · cases hk
  next hnil =>
    rw [if_neg hnil]
    split at hk
    next hl =>
      cases hk
      obtain ⟨items, rfl⟩ := Option.isSome_iff_exists.1 hl.1
      have hshort := List.dropLast_append_getLast? _ hl.2
      rw [if_pos hl]
      cases items <;> simp [triviaText, hl.2, hshort]
    next hl =>
      cases hk
      rw [if_neg hl]
      rcases lazyMark with - | - | ⟨item, items⟩
      · simp
      · simp
      · have hlast : short.getLast? ≠ some '?' := fun he => hl ⟨rfl, he⟩
        simp [hlast]

theorem Repetition.suffix_of_kept_none (hk : r.kept = none) : r.suffix.quantifier = [] ∧
    r.suffix.before ++ r.suffix.after = r.strays.map Trivia.node := by
  rcases r with ⟨before, quantifier, lazyMark⟩
  simp only [Repetition.kept] at hk
  split at hk
  next hnil =>
    simp only [Repetition.strays, Repetition.suffix, hnil]
    rcases lazyMark with - | - | ⟨item, items⟩ <;> simp
  · split at hk <;> cases hk

end Kept

end RegexAnatomy
