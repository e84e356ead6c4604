import RegexAnatomy.Proofs.Options.Net

/-! How the net of a list of option constructs is spelled. Every letter of the
constructs is collected once, when it is met first from the right, and remembered
from then on; so the net names the letters of the constructs, each of them once,
and nothing is left of constructs without a letter. -/

namespace RegexAnatomy

def OptionLetter.count (l : OptionLetter) (t : Text) : Nat := t.countP (·.toLower = l.char)

section Count

variable {l : OptionLetter} {s t : Text} {c : Char}

@[simp] theorem OptionLetter.count_nil : l.count [] = 0 := rfl

theorem OptionLetter.count_cons :
    l.count (c :: t) = l.count t + if c.toLower = l.char then 1 else 0 := by
  simp [OptionLetter.count, List.countP_cons]

@[simp] theorem OptionLetter.count_append : l.count (s ++ t) = l.count s + l.count t :=
  List.countP_append

theorem OptionLetter.count_pos : 0 < l.count t ↔ l.In t := by
  simp [OptionLetter.count, OptionLetter.In, List.countP_pos_iff]

theorem OptionLetter.ne_char_of_not_letter (h : isOptionLetter c = false) (l : OptionLetter) :
    c.toLower ≠ l.char := by
  intro hl
  rw [isOptionLetter_of_char hl] at h
  cases h

theorem OptionLetter.count_skip (h : isOptionLetter c = false) : l.count (c :: t) = l.count t := by
  rw [OptionLetter.count_cons, if_neg (ne_char_of_not_letter h l), Nat.add_zero]

/-- Text without a letter names no option, and text that names none has no letter. -/
theorem forall_not_in_iff : (∀ l : OptionLetter, ¬ l.In t) ↔ ∀ c ∈ t, isOptionLetter c = false := by
  constructor
  · intro h c hc
    refine eq_false_of_ne_true fun hletter => ?_
    obtain ⟨l, hl⟩ := exists_char_of_isOptionLetter hletter
    exact h l ⟨c, hc, hl⟩
  · rintro h l ⟨c, hc, hl⟩
    exact OptionLetter.ne_char_of_not_letter (h c hc) l hl

end Count

namespace Toggles

/-- What has been collected holds every letter that has been seen once, and no other. -/
def CollectsOnce (s : Toggles) : Prop :=
  ∀ l : OptionLetter,
    l.count s.on + l.count s.off + l.count s.waiting = if l.char ∈ s.seen then 1 else 0

variable {s : Toggles}

theorem CollectsOnce.add (h : s.CollectsOnce) (c : Char) : (s.add c).CollectsOnce := by
  intro l
  have hl := h l
  unfold Toggles.add
  split
  · simp only [OptionLetter.count_append, OptionLetter.count_nil]
    omega
  split
  · simp only [OptionLetter.count_append, OptionLetter.count_nil]
    omega
  split
  next hnew =>
    dsimp only
    rw [OptionLetter.count_cons, ← Nat.add_assoc, hl]
    by_cases hc : c.toLower = l.char
    · have hseen : l.char ∉ s.seen := hc ▸ hnew.2
      simp [hc, hseen]
    · simp [hc, Ne.symm hc]
  · exact hl

theorem CollectsOnce.foldr (h : s.CollectsOnce) (t : Text) :
    (t.foldr Toggles.add s).CollectsOnce := by
  induction t with
  | nil => exact h
  | cons c t ih => exact ih.add c

theorem seen_add (l : OptionLetter) (c : Char) :
    l.char ∈ (s.add c).seen ↔ c.toLower = l.char ∨ l.char ∈ s.seen := by
  unfold Toggles.add
  split
  next hc =>
    have hsign : isOptionLetter c = false := by rcases hc with rfl | rfl <;> decide
    simp [OptionLetter.ne_char_of_not_letter hsign l]
  split
  next hc =>
    have hsign : isOptionLetter c = false := by rw [hc]; decide
    simp [OptionLetter.ne_char_of_not_letter hsign l]
  split
  next => simp [eq_comm (a := l.char)]
  next hold =>
    -- a letter that is passed over has been seen
    refine ⟨.inr, ?_⟩
    rintro (hl | hl)
    · rw [← hl]
      exact Decidable.not_not.1 fun hnew => hold ⟨isOptionLetter_of_char hl, hnew⟩
    · exact hl

theorem seen_foldr (l : OptionLetter) (t : Text) :
    l.char ∈ (t.foldr Toggles.add s).seen ↔ l.In t ∨ l.char ∈ s.seen := by
  induction t with
  | nil => simp
  | cons c t ih => rw [List.foldr_cons, seen_add, ih, OptionLetter.in_cons, or_assoc]

theorem seen_ofConstructs (l : OptionLetter) (constructs : List Text) :
    l.char ∈ (ofConstructs constructs).seen ↔ ∃ c ∈ constructs, l.In c := by
  induction constructs with
  | nil => simp [ofConstructs]
  | cons c cs ih =>
    have hseen : (ofConstructs (c :: cs)).seen = (c.foldr Toggles.add (ofConstructs cs)).seen := rfl
    rw [hseen, seen_foldr, ih]
    simp

theorem collectsOnce_ofConstructs {constructs : List Text}
    (h : ∀ c ∈ constructs, IsOptionConstruct c) : (ofConstructs constructs).CollectsOnce := by
  induction constructs with
  | nil => exact fun l => rfl
  | cons c cs ih =>
    obtain ⟨hc, hcs⟩ := List.forall_mem_cons.1 h
    obtain ⟨letters, -, rfl⟩ := hc
    rw [ofConstructs, List.foldr_cons, ← ofConstructs, List.cons_append, List.cons_append,
      addConstruct_eq]
    exact ((ih hcs).foldr _).add _

end Toggles

section Net

variable {constructs : List Text}

theorem netOptions_eq_nil :
    netOptions constructs = [] ↔
      (Toggles.ofConstructs constructs).on = [] ∧ (Toggles.ofConstructs constructs).off = [] := by
  simp only [netOptions]
  split
  next h => exact iff_of_true rfl h
  next h =>
    refine iff_of_false (fun hnil => ?_) h
    split at hnil <;> cases hnil

/-- The brackets and the signs of a net are no letters. -/
theorem count_netOptions (l : OptionLetter) (constructs : List Text) :
    l.count (netOptions constructs) =
      l.count (Toggles.ofConstructs constructs).on +
        l.count (Toggles.ofConstructs constructs).off := by
  have hopen (t : Text) : l.count ('(' :: '?' :: t) = l.count t := by
    rw [OptionLetter.count_skip (by decide), OptionLetter.count_skip (by decide)]
  have hclose : l.count [')'] = 0 := OptionLetter.count_skip (by decide)
  have hminus (t : Text) : l.count ('-' :: t) = l.count t := OptionLetter.count_skip (by decide)
  simp only [netOptions]
  split
  next h => simp [h.1, h.2]
  split
  next h => simp [hopen, hclose, h]
  next => simp [hopen, hclose, hminus]

/-- The net names the letters of the constructs, each of them once. -/
theorem count_netOptions_eq (h : ∀ c ∈ constructs, IsOptionConstruct c) (l : OptionLetter) :
    l.count (netOptions constructs) = if ∃ c ∈ constructs, l.In c then 1 else 0 := by
  have hcount := Toggles.collectsOnce_ofConstructs h l
  obtain ⟨-, hwaiting, -⟩ := Toggles.ofConstructs_spec h
  rw [hwaiting, OptionLetter.count_nil, Nat.add_zero] at hcount
  simp only [count_netOptions, hcount, Toggles.seen_ofConstructs]

theorem netOptions_eq_nil_iff (h : ∀ c ∈ constructs, IsOptionConstruct c) :
    netOptions constructs = [] ↔ ∀ c ∈ constructs, ∀ d ∈ c, isOptionLetter d = false := by
  have hnone : (∀ c ∈ constructs, ∀ d ∈ c, isOptionLetter d = false) ↔
      ∀ l : OptionLetter, l.count (netOptions constructs) = 0 := by
    simp only [← forall_not_in_iff, count_netOptions_eq h, ite_eq_right_iff, Nat.one_ne_zero,
      imp_false, not_exists, not_and]
    exact ⟨fun hc l c hm => hc c hm l, fun hl c hm l => hl l c hm⟩
  rw [hnone]
  constructor
  · intro hnil l
    rw [hnil, OptionLetter.count_nil]
  · intro hcount
    obtain ⟨hs, -, -⟩ := Toggles.ofConstructs_spec h
    have empty {t : Text} (ht : ∀ c ∈ t, isOptionLetter c)
        (hl : ∀ l : OptionLetter, l.count t = 0) : t = [] := by
      refine List.eq_nil_iff_forall_not_mem.2 fun c hc => ?_
      obtain ⟨l, hlc⟩ := exists_char_of_isOptionLetter (ht c hc)
      have hpos := OptionLetter.count_pos.2 ⟨c, hc, hlc⟩
      rw [hl l] at hpos
      exact absurd hpos (Nat.lt_irrefl 0)
    refine netOptions_eq_nil.2 ⟨empty hs.on fun l => ?_, empty hs.off fun l => ?_⟩
    all_goals
      have hsum := hcount l
      rw [count_netOptions] at hsum
      omega

/-- One construct, or none, that stands for a list of constructs. -/
structure IsNetOf (net : Text) (constructs : List Text) : Prop where
  /-- It sets what the constructs set one after another, whatever was in effect before. -/
  state : ∀ st : OptionState, st.apply net = st.applyAll constructs
  /-- So it does for the two options that the reading of a pattern depends on. -/
  mode : ∀ m : Mode, m.apply net = constructs.foldl Mode.apply m
  empty : net = [] ↔ ∀ c ∈ constructs, ∀ d ∈ c, isOptionLetter d = false
  once : ∀ l : OptionLetter, l.count net ≤ 1
  construct : net ≠ [] → IsOptionConstruct net

/-- The net of option constructs does what they do one after another, and names no letter twice. -/
theorem netOptions_isNetOf (h : ∀ c ∈ constructs, IsOptionConstruct c) :
    IsNetOf (netOptions constructs) constructs := by
  refine ⟨apply_netOptions h, mode_apply_netOptions h, netOptions_eq_nil_iff h, fun l => ?_,
    fun hne => ?_⟩
  · rw [count_netOptions_eq h]
    split <;> omega
  · obtain ⟨c, letters, hc, hletters, heq⟩ := netOptions_eq h hne
    exact ⟨c :: letters, List.forall_mem_cons.2 ⟨hc, hletters⟩, heq⟩

/-- Letters in both cases, signs that repeat, a letter set twice in one construct, and a construct
without a letter. -/
def quarrellingConstructs : List Text :=
  ["(?im-s)".toList, "(?S-+x-Xi)".toList, "(?+-)".toList, "(?N)".toList]

theorem netOptions_isNetOf_quarrellingConstructs :
    (∀ c ∈ quarrellingConstructs, IsOptionConstruct c) ∧
      netOptions quarrellingConstructs = "(?mSN-Xi)".toList ∧
      IsNetOf (netOptions quarrellingConstructs) quarrellingConstructs := by
  have hconstructs : ∀ c ∈ quarrellingConstructs, IsOptionConstruct c := by
    have letters (t : Text) (h : t.all isOptionChar) :
        IsOptionConstruct ('(' :: '?' :: t ++ [')']) := ⟨t, List.all_eq_true.1 h, rfl⟩
    simp only [quarrellingConstructs, List.forall_mem_cons, List.not_mem_nil, false_imp_iff,
      implies_true, and_true]
    exact ⟨letters "im-s".toList (by decide), letters "S-+x-Xi".toList (by decide),
      letters "+-".toList (by decide), letters "N".toList (by decide)⟩
  exact ⟨hconstructs, by decide, netOptions_isNetOf hconstructs⟩

end Net

end RegexAnatomy
