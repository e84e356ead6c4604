import RegexAnatomy.Proofs.Canonical.Kept
import RegexAnatomy.Proofs.Reading.Word

/-! What a quantifier means: how often the thing before it may occur. Canonical spelling
keeps the bounds and takes the lazy mark only from a quantifier whose bounds are one
number; what it leaves is nothing, or is read back whole. Spelling canonically what is
spelled so already changes nothing, whatever the text is. -/

namespace RegexAnatomy

structure Count where
  digits : Text
  isNumeral : isNumeral digits
  deriving DecidableEq

def Count.value (n : Count) : Nat := numeralValue n.digits

inductive Quantifier where
  | star
  | plus
  | optional
  | exact (n : Count)
  | atLeast (n : Count)
  | between (n m : Count)
  deriving DecidableEq

def Quantifier.text : Quantifier → Text
  | .star => ['*']
  | .plus => ['+']
  | .optional => ['?']
  | .exact n => braced n.digits
  | .atLeast n => braced (n.digits ++ [','])
  | .between n m => braced (n.digits ++ ',' :: m.digits)

/-- How often something may occur: at least and at most, if there is a most. -/
structure Bounds where
  least : Nat
  most : Option Nat
  deriving DecidableEq

def Bounds.IsFixed (b : Bounds) : Prop := b.most = some b.least

def Bounds.once : Bounds := ⟨1, some 1⟩

/-- The greatest count that can be written is no bound, unless the lower bound is written alike. -/
def Quantifier.bounds : Quantifier → Bounds
  | .star => ⟨0, none⟩
  | .plus => ⟨1, none⟩
  | .optional => ⟨0, some 1⟩
  | .exact n => ⟨n.value, some n.value⟩
  | .atLeast n => ⟨n.value, none⟩
  | .between n m =>
    ⟨n.value, if m.digits = unboundedCount ∧ m.digits ≠ n.digits then none else some m.value⟩

section Spelling

variable {n m : Count} {q : Text}

theorem Count.ne_nil (n : Count) : n.digits ≠ [] := by
  have h := n.isNumeral
  simp only [RegexAnatomy.isNumeral, Bool.and_eq_true, Bool.not_eq_true',
    List.isEmpty_eq_false_iff] at h
  exact h.1

theorem Count.isDigit (n : Count) : ∀ c ∈ n.digits, c.isDigit := by
  have h := n.isNumeral
  simp only [RegexAnatomy.isNumeral, Bool.and_eq_true] at h
  exact List.all_eq_true.1 h.2

theorem Count.comma_not_mem (n : Count) : ',' ∉ n.digits :=
  RegexAnatomy.comma_not_mem n.isDigit

theorem Count.ext_digits (h : n.digits = m.digits) : n = m := by
  cases n
  cases m
  cases h
  rfl

theorem Count.value_of_digits {t : Text} (h : n.digits = t) : n.value = numeralValue t := by
  rw [← h]
  rfl

theorem exists_count (hne : q ≠ []) (hd : ∀ c ∈ q, c.isDigit) : ∃ n : Count, n.digits = q := by
  refine ⟨⟨q, ?_⟩, rfl⟩
  simpa [RegexAnatomy.isNumeral, hne] using hd

theorem Quantifier.isQuantifier (q : Quantifier) : IsQuantifier q.text := by
  cases q with
  | star | plus | optional => rfl
  | exact n => exact (IsCounts.exact n.ne_nil n.isDigit).isQuantifier
  | atLeast n => exact (IsCounts.range n.ne_nil n.isDigit (by simp)).isQuantifier
  | between n m => exact (IsCounts.range n.ne_nil n.isDigit m.isDigit).isQuantifier

theorem exists_quantifier (h : IsQuantifier q) : ∃ p : Quantifier, p.text = q := by
  rcases h.cases with rfl | rfl | rfl | ⟨counts, hc, rfl⟩
  · exact ⟨.star, rfl⟩
  · exact ⟨.plus, rfl⟩
  · exact ⟨.optional, rfl⟩
  · cases hc with
    | exact hl hd =>
      obtain ⟨n, rfl⟩ := exists_count hl hd
      exact ⟨.exact n, rfl⟩
    | @range least most hl hd hm =>
      obtain ⟨n, rfl⟩ := exists_count hl hd
      by_cases hmost : most = []
      · exact ⟨.atLeast n, by rw [hmost]; rfl⟩
      · obtain ⟨m, rfl⟩ := exists_count hmost hm
        exact ⟨.between n m, rfl⟩

theorem braced_inj {s t : Text} : braced s = braced t ↔ s = t := by
  simp [braced]

/-- Counts with a comma are the same when what stands on each side of it is the same. -/
theorem Count.range_inj {s t : Text} (hs : ',' ∉ s)
    (h : n.digits ++ ',' :: s = m.digits ++ ',' :: t) : n = m ∧ s = t := by
  obtain ⟨hn, -, ht⟩ := (List.append_cons_inj_of_notMem n.comma_not_mem hs).1 h
  exact ⟨Count.ext_digits hn, ht⟩

theorem Count.ne_range (n : Count) (s t : Text) : n.digits ≠ s ++ ',' :: t := fun h =>
  n.comma_not_mem (h ▸ by simp)

/-- Different quantifiers are spelled differently. -/
theorem Quantifier.text_injective : Function.Injective Quantifier.text := by
  intro p q h
  cases p with
  | star | plus | optional => cases q <;> first | rfl | cases h
  | exact n =>
    cases q with
    | star | plus | optional => cases h
    | exact m => rw [Count.ext_digits (braced_inj.1 h)]
    | atLeast | between => exact absurd (braced_inj.1 h) (n.ne_range _ _)
  | atLeast n =>
    cases q with
    | star | plus | optional => cases h
    | exact m => exact absurd (braced_inj.1 h).symm (m.ne_range _ _)
    | atLeast m => rw [(Count.range_inj (by simp) (braced_inj.1 h)).1]
    | between m k => exact absurd (Count.range_inj (by simp) (braced_inj.1 h)).2.symm k.ne_nil
  | between n k =>
    cases q with
    | star | plus | optional => cases h
    | exact m => exact absurd (braced_inj.1 h).symm (m.ne_range _ _)
    | atLeast m => exact absurd (Count.range_inj k.comma_not_mem (braced_inj.1 h)).2 k.ne_nil
    | between m l =>
      obtain ⟨rfl, hk⟩ := Count.range_inj k.comma_not_mem (braced_inj.1 h)
      rw [Count.ext_digits hk]

end Spelling

/-- The text says what the quantifier says, lazily or not: it is nothing, and the quantifier
allows one time only, or it is read back as a quantifier with the same bounds. -/
inductive Quantifier.SaidBy (q : Quantifier) (lazy : Bool) : Text → Prop
  | nothing (h : q.bounds = Bounds.once) : SaidBy q lazy []
  | quantifier {short : Quantifier} {marked : Bool} {text : Text}
      (read : splitQuantifier text = some (short.text, lazyText marked))
      (bounds : short.bounds = q.bounds)
      (mark : marked = lazy ∨ marked = false ∧ q.bounds.IsFixed) : SaidBy q lazy text

section Canonical

variable {q : Quantifier} {lazy : Bool}

theorem Quantifier.splitQuantifier_text (q : Quantifier) (rest : Text) :
    splitQuantifier (q.text ++ rest) = some (q.text, rest) :=
  splitQuantifier_again q.isQuantifier rest

theorem Quantifier.SaidBy.of_bounds (short : Quantifier) (h : short.bounds = q.bounds) :
    q.SaidBy lazy (short.text ++ lazyText lazy) :=
  .quantifier (short.splitQuantifier_text _) h (.inl rfl)

/-- The lazy mark of a quantifier with fixed bounds says nothing. -/
theorem Quantifier.SaidBy.of_fixed (short : Quantifier) (h : short.bounds = q.bounds)
    (hf : q.bounds.IsFixed) : q.SaidBy lazy short.text :=
  have hread : splitQuantifier short.text = some (short.text, lazyText false) := short.isQuantifier
  .quantifier hread h (.inr ⟨rfl, hf⟩)

theorem Quantifier.saidBy_sign {sign : Char} (h : sign = '*' ∨ sign = '+' ∨ sign = '?')
    (hq : q.text = [sign]) : q.SaidBy lazy (canonicalRepetition q.text lazy) := by
  have hsaid : q.SaidBy lazy (q.text ++ lazyText lazy) := .of_bounds q rfl
  rwa [hq, canonicalRepetition_sign h, ← List.singleton_append, ← hq]

theorem Quantifier.saidBy_exact (n : Count) (lazy : Bool) :
    (Quantifier.exact n).SaidBy lazy (canonicalRepetition (braced n.digits) lazy) := by
  rw [canonicalRepetition_braced, shortBounds_exact n.comma_not_mem]
  split
  next h =>
    have hone : n.value = 1 := Count.value_of_digits h
    exact .nothing (by simp [Quantifier.bounds, Bounds.once, hone])
  next => exact .of_fixed (.exact n) rfl rfl

theorem Quantifier.saidBy_atLeast (n : Count) (lazy : Bool) : (Quantifier.atLeast n).SaidBy lazy
    (canonicalRepetition (braced (n.digits ++ [','])) lazy) := by
  rw [canonicalRepetition_braced, shortBounds_range n.comma_not_mem]
  split
  next h =>
    have hzero : n.value = 0 := Count.value_of_digits h.1
    exact .of_bounds .star (by simp [Quantifier.bounds, hzero])
  split
  next h =>
    have hone : n.value = 1 := Count.value_of_digits h.1
    exact .of_bounds .plus (by simp [Quantifier.bounds, hone])
  rw [if_neg (by simp), if_neg (by simp), if_neg n.ne_nil]
  exact .of_bounds (.atLeast n) rfl

theorem Quantifier.saidBy_between (n m : Count) (lazy : Bool) : (Quantifier.between n m).SaidBy lazy
    (canonicalRepetition (braced (n.digits ++ ',' :: m.digits)) lazy) := by
  rw [canonicalRepetition_braced, shortBounds_range n.comma_not_mem]
  split
  next h =>
    have hzero : n.value = 0 := Count.value_of_digits h.1
    have hmost : m.digits = unboundedCount := h.2.resolve_left m.ne_nil
    refine .of_bounds .star ?_
    simp [Quantifier.bounds, hzero, hmost, h.1, unboundedCount]
  split
  next h =>
    have hone : n.value = 1 := Count.value_of_digits h.1
    have hmost : m.digits = unboundedCount := h.2.resolve_left m.ne_nil
    refine .of_bounds .plus ?_
    simp [Quantifier.bounds, hone, hmost, h.1, unboundedCount]
  split
  next h =>
    have hzero : n.value = 0 := Count.value_of_digits h.1
    have hone : m.value = 1 := Count.value_of_digits h.2
    refine .of_bounds .optional ?_
    simp [Quantifier.bounds, hzero, hone, h.2, unboundedCount]
  split
  next h =>
    have hn : n.value = 1 := Count.value_of_digits h.1
    have hm : m.value = 1 := Count.value_of_digits h.2
    exact .nothing (by simp [Quantifier.bounds, Bounds.once, hn, hm, h.2, unboundedCount])
  split
  next h =>
    obtain rfl := Count.ext_digits h
    exact .of_fixed (.exact n) (by simp [Quantifier.bounds])
      (by simp [Quantifier.bounds, Bounds.IsFixed])
  next => exact .of_bounds (.between n m) rfl

end Canonical

/-- What is read as a quantifier is spelled by one quantifier, and canonical spelling says the
same. -/
theorem saidBy_canonicalRepetition (raw : Text) :
    ((∃ t rest, splitQuantifier t = some (raw, rest)) ↔ ∃! q : Quantifier, q.text = raw) ∧
      ∀ q : Quantifier, q.text = raw → ∀ lazy, q.SaidBy lazy (canonicalRepetition raw lazy) := by
  refine ⟨⟨?_, ?_⟩, ?_⟩
  · rintro ⟨t, rest, h⟩
    obtain ⟨q, rfl⟩ := exists_quantifier (isQuantifier_of_split h)
    exact ⟨q, rfl, fun p hp => Quantifier.text_injective hp⟩
  · rintro ⟨q, rfl, -⟩
    exact ⟨q.text, [], q.isQuantifier⟩
  · rintro q rfl lazy
    cases q with
    | star => exact Quantifier.saidBy_sign (.inl rfl) rfl
    | plus => exact Quantifier.saidBy_sign (.inr (.inl rfl)) rfl
    | optional => exact Quantifier.saidBy_sign (.inr (.inr rfl)) rfl
    | exact n => exact Quantifier.saidBy_exact n lazy
    | atLeast n => exact Quantifier.saidBy_atLeast n lazy
    | between n m => exact Quantifier.saidBy_between n m lazy

/-- A count that the greatest one bounds has no upper bound. -/
theorem saidBy_canonicalRepetition_greatestCount :
    (Quantifier.between ⟨['1'], rfl⟩ ⟨unboundedCount, rfl⟩).SaidBy true ['+', '?'] :=
  (saidBy_canonicalRepetition (braced (['1'] ++ ',' :: unboundedCount))).2 _ rfl true

section Settled

variable {counts mark short least : Text}

/-- Counts in braces that have no comma are canonical, unless they are a single one. -/
theorem canonicalQuantifier_braced (h : ',' ∉ least) (hone : least ≠ ['1']) :
    canonicalQuantifier (braced least) = braced least := by
  have hb := canonicalRepetition_braced least false
  rw [lazyText, if_neg (by simp), shortBounds_exact h, if_neg hone] at hb
  exact hb

theorem canonicalQuantifier_of_shortBounds (h : shortBounds counts mark = some short) :
    canonicalQuantifier short = short := by
  by_cases hcomma : ',' ∈ counts
  · obtain ⟨least, most, rfl, hleast⟩ := List.eq_append_cons_of_mem hcomma
    rw [shortBounds_range hleast] at h
    split at h
    · cases h; rfl
    split at h
    · cases h; rfl
    split at h
    · cases h; rfl
    split at h
    · cases h; rfl
    next hone =>
      split at h <;> cases h
      next he =>
        refine canonicalQuantifier_braced hleast ?_
        rintro rfl
        exact hone ⟨rfl, he.symm⟩
  · rw [shortBounds_exact hcomma] at h
    split at h <;> cases h
    next => rfl
    next hone => exact canonicalQuantifier_braced hcomma hone

/-- A canonical spelling is its own canonical spelling, also of text that is no quantifier. -/
theorem canonicalQuantifier_canonicalQuantifier (q : Text) :
    canonicalQuantifier (canonicalQuantifier q) = canonicalQuantifier q := by
  rcases canonicalQuantifier_cases q with he | ⟨counts, mark, hs⟩
  · rw [he, he]
  · exact canonicalQuantifier_of_shortBounds hs

example : canonicalQuantifier "\x7b\x7b7,\x7b7\x7d?".toList = "\x7b\x7b7\x7d".toList := by decide

end Settled

end RegexAnatomy
