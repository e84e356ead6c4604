import Mathlib.Tactic.Tauto
import RegexAnatomy.Proofs.Block.Regular
import RegexAnatomy.Proofs.Options.State

/-! The net of a list of option constructs sets what the constructs leave set.
The net is collected from right to left and the constructs act from left to
right, so what has been collected is read as a change of the options in effect
before it, and every character that is collected is shown to compose with it. -/

namespace RegexAnatomy

def OptionLetter.In (l : OptionLetter) (t : Text) : Prop := ∃ c ∈ t, c.toLower = l.char

section In

variable {l : OptionLetter} {s t : Text} {c : Char}

instance : Decidable (l.In t) := inferInstanceAs (Decidable (∃ c ∈ t, c.toLower = l.char))

@[simp] theorem OptionLetter.in_nil : ¬ l.In [] := by simp [OptionLetter.In]

@[simp] theorem OptionLetter.in_cons : l.In (c :: t) ↔ c.toLower = l.char ∨ l.In t := by
  simp [OptionLetter.In]

@[simp] theorem OptionLetter.in_append : l.In (s ++ t) ↔ l.In s ∨ l.In t := by
  simp [OptionLetter.In, or_and_right, exists_or]

end In

/-- Letters without a sign between them are all set alike. -/
theorem applySigned_letters {letters : Text} (hl : ∀ c ∈ letters, isOptionLetter c) (on : Bool)
    (rest : Text) (st : OptionState) :
    st.applySigned on (letters ++ rest) =
      OptionState.applySigned on (fun l => if l.In letters then on else st l) rest := by
  induction letters generalizing st with
  | nil => simp
  | cons c t ih =>
    obtain ⟨hc, ht⟩ := List.forall_mem_cons.1 hl
    have hplus : c ≠ '+' := by rintro rfl; exact absurd hc (by decide)
    have hminus : c ≠ '-' := by rintro rfl; exact absurd hc (by decide)
    have hset : (fun l => if l.In t then on else st.set c on l) =
        fun l => if l.In (c :: t) then on else st l := by
      funext l
      by_cases hlc : c.toLower = l.char <;> simp [OptionState.set, hlc]
    rw [List.cons_append, OptionState.applySigned, if_neg hplus, if_neg hminus, ih ht, hset]

theorem applySigned_skip {c : Char} (hc : isOptionLetter c = false) (hplus : c ≠ '+')
    (hminus : c ≠ '-') (on : Bool) (st : OptionState) (t : Text) :
    st.applySigned on (c :: t) = st.applySigned on t := by
  rw [OptionState.applySigned, if_neg hplus, if_neg hminus, OptionState.set_of_not_letter hc]

namespace Toggles

/-- What has been collected stands for each letter at most once, and remembers which. -/
structure Sound (s : Toggles) : Prop where
  on : ∀ c ∈ s.on, isOptionLetter c
  off : ∀ c ∈ s.off, isOptionLetter c
  waiting : ∀ c ∈ s.waiting, isOptionLetter c
  seen : ∀ l : OptionLetter, l.char ∈ s.seen ↔ l.In s.on ∨ l.In s.off ∨ l.In s.waiting
  once : ∀ l : OptionLetter, (l.In s.on → ¬ l.In s.off ∧ ¬ l.In s.waiting) ∧
    (l.In s.off → ¬ l.In s.waiting)

/-- What is collected does to the options in effect before it, when the letters that still wait
for a sign get `sign`. -/
def act (sign : Bool) (s : Toggles) (st : OptionState) : OptionState := fun l =>
  if l.In s.on then true else if l.In s.off then false else if l.In s.waiting then sign else st l

theorem sound_empty : Sound {} :=
  ⟨by simp, by simp, by simp, by simp, by simp⟩

theorem Sound.add {s : Toggles} (h : s.Sound) (c : Char) : (s.add c).Sound := by
  unfold Toggles.add
  split
  · refine ⟨?_, h.off, by simp, fun l => ?_, fun l => ?_⟩
    · exact List.forall_mem_append.2 ⟨h.waiting, h.on⟩
    · rw [h.seen l]; simp [or_comm, or_left_comm]
    · have := h.once l
      simp only [OptionLetter.in_append, OptionLetter.in_nil]
      tauto
  split
  · refine ⟨h.on, ?_, by simp, fun l => ?_, fun l => ?_⟩
    · exact List.forall_mem_append.2 ⟨h.waiting, h.off⟩
    · rw [h.seen l]; simp [or_comm]
    · have := h.once l
      simp only [OptionLetter.in_append, OptionLetter.in_nil]
      tauto
  split
  next hc =>
    obtain ⟨hletter, hnew⟩ := hc
    obtain ⟨l', hl'⟩ := exists_char_of_isOptionLetter hletter
    refine ⟨h.on, h.off, List.forall_mem_cons.2 ⟨hletter, h.waiting⟩, fun l => ?_, fun l => ?_⟩
    · have := h.seen l
      simp only [List.mem_cons, OptionLetter.in_cons, eq_comm (a := l.char), this]
      tauto
    · have hnot : l.char = c.toLower → ¬ (l.In s.on ∨ l.In s.off ∨ l.In s.waiting) := by
        intro hl
        rw [← h.seen l, hl]
        exact hnew
      have := h.once l
      simp only [OptionLetter.in_cons, eq_comm (b := l.char)]
      tauto
  · exact h

/-- The question mark of a construct ends it like a sign. -/
theorem act_add_sign {s : Toggles} (h : s.Sound) {c : Char} (hc : c = '+' ∨ c = '?')
    (sign : Bool) : (s.add c).act sign = s.act true := by
  funext st l
  have := h.once l
  simp only [Toggles.add, if_pos hc, Toggles.act, OptionLetter.in_append, OptionLetter.in_nil,
    if_false]
  by_cases h1 : l.In s.on <;> by_cases h2 : l.In s.off <;> by_cases h3 : l.In s.waiting <;>
    simp_all

theorem act_add_minus {s : Toggles} (h : s.Sound) (sign : Bool) :
    (s.add '-').act sign = s.act false := by
  funext st l
  have := h.once l
  have hplus : ¬ (('-' : Char) = '+' ∨ ('-' : Char) = '?') := by decide
  simp only [Toggles.add, if_neg hplus, if_true, Toggles.act, OptionLetter.in_append,
    OptionLetter.in_nil, if_false]
  by_cases h1 : l.In s.on <;> by_cases h2 : l.In s.off <;> by_cases h3 : l.In s.waiting <;>
    simp_all

/-- Any other character is set before all that has been collected acts. -/
theorem act_add {s : Toggles} (h : s.Sound) {c : Char} (hplus : c ≠ '+') (hquestion : c ≠ '?')
    (hminus : c ≠ '-') (sign : Bool) (st : OptionState) :
    (s.add c).act sign st = s.act sign (st.set c sign) := by
  have hsign : ¬ (c = '+' ∨ c = '?') := by tauto
  simp only [Toggles.add, if_neg hsign, if_neg hminus]
  split
  next hc =>
    funext l
    have hseen := h.seen l
    by_cases hl : c.toLower = l.char
    · have : ¬ (l.In s.on ∨ l.In s.off ∨ l.In s.waiting) := by
        rw [← hseen, ← hl]
        exact hc.2
      simp_all [Toggles.act, OptionState.set]
    · simp [Toggles.act, OptionState.set, hl]
  next hc =>
    by_cases hletter : isOptionLetter c = true
    · have hmem : c.toLower ∈ s.seen := by tauto
      funext l
      have hseen := h.seen l
      by_cases hl : c.toLower = l.char
      · rw [hl, hseen] at hmem
        simp only [Toggles.act]
        rcases hmem with h1 | h1 | h1 <;> simp [h1]
      · simp [Toggles.act, OptionState.set, hl]
    · rw [OptionState.set_of_not_letter (by simpa using hletter)]

theorem Sound.foldr {s : Toggles} (h : s.Sound) (t : Text) : (t.foldr Toggles.add s).Sound := by
  induction t with
  | nil => exact h
  | cons c t ih => exact ih.add c

theorem act_of_waiting {s : Toggles} (h : s.waiting = []) (sign : Bool) :
    s.act sign = s.act true := by
  funext st l
  simp [Toggles.act, h]

/-- Collecting a text is acting it out before what had been collected. -/
theorem act_foldr {s : Toggles} (h : s.Sound) (hw : s.waiting = []) {t : Text}
    (hquestion : '?' ∉ t) (sign : Bool) (st : OptionState) :
    (t.foldr Toggles.add s).act sign st = s.act true (st.applySigned sign t) := by
  induction t generalizing sign st with
  | nil => rw [List.foldr_nil, act_of_waiting hw]; rfl
  | cons c t ih =>
    obtain ⟨hc, ht⟩ := not_or.1 (List.mem_cons.not.1 hquestion)
    have hs : (t.foldr Toggles.add s).Sound := h.foldr t
    rw [List.foldr_cons, OptionState.applySigned]
    split
    next hplus => rw [act_add_sign hs (.inl hplus), ih ht]
    split
    next hminus => rw [hminus, act_add_minus hs, ih ht]
    next hplus hminus => rw [act_add hs hplus (Ne.symm hc) hminus, ih ht]

theorem addConstruct_eq {letters : Text} (s : Toggles) :
    s.addConstruct ('(' :: '?' :: letters) = (letters.foldr Toggles.add s).add '?' := by
  have hnot (u : Toggles) : u.add '(' = u := by
    have h1 : ¬ (('(' : Char) = '+' ∨ ('(' : Char) = '?') := by decide
    have h2 : ¬ (('(' : Char) = '-') := by decide
    have h3 : ¬ (isOptionLetter '(' = true ∧ '('.toLower ∉ u.seen) := by
      simp [show isOptionLetter '(' = false by decide]
    rw [Toggles.add, if_neg h1, if_neg h2, if_neg h3]
  rw [Toggles.addConstruct, List.foldr_cons, List.foldr_cons, hnot]
  simp [Toggles.add]

end Toggles

theorem IsOptionConstruct.apply_eq {letters : Text} (st : OptionState) :
    st.apply ('(' :: '?' :: letters) = st.applySigned true letters := by
  rw [OptionState.apply, applySigned_skip (by decide) (by decide) (by decide),
    applySigned_skip (by decide) (by decide) (by decide)]

theorem Toggles.ofConstructs_spec {constructs : List Text}
    (h : ∀ c ∈ constructs, IsOptionConstruct c) :
    (ofConstructs constructs).Sound ∧ (ofConstructs constructs).waiting = [] ∧
      ∀ st, (ofConstructs constructs).act true st = st.applyAll constructs := by
  induction constructs with
  | nil =>
    refine ⟨sound_empty, rfl, fun st => funext fun l => ?_⟩
    simp [ofConstructs, act, OptionState.applyAll]
  | cons c cs ih =>
    obtain ⟨hc, hcs⟩ := List.forall_mem_cons.1 h
    obtain ⟨hs, hw, hact⟩ := ih hcs
    obtain ⟨letters, hl, rfl⟩ := hc
    have hquestion : '?' ∉ letters ++ [')'] := by
      simp only [List.mem_append, List.mem_singleton, not_or]
      exact ⟨fun hm => absurd (hl _ hm) (by decide), by decide⟩
    rw [ofConstructs, List.foldr_cons, ← ofConstructs, List.cons_append, List.cons_append,
      addConstruct_eq]
    refine ⟨(hs.foldr _).add _, by simp [Toggles.add], fun st => ?_⟩
    rw [act_add_sign (hs.foldr _) (.inr rfl), act_foldr hs hw hquestion, hact,
      ← IsOptionConstruct.apply_eq]
    rfl

/-- The net sets what the constructs leave set, whatever was in effect before. -/
theorem apply_netOptions {constructs : List Text} (h : ∀ c ∈ constructs, IsOptionConstruct c)
    (st : OptionState) : st.apply (netOptions constructs) = st.applyAll constructs := by
  obtain ⟨hs, hw, hact⟩ := Toggles.ofConstructs_spec h
  have hclose (on : Bool) (st : OptionState) : st.applySigned on [')'] = st :=
    applySigned_skip (by decide) (by decide) (by decide) on st []
  rw [← hact]
  simp only [netOptions]
  split
  next he =>
    funext l
    simp [Toggles.act, he.1, he.2, hw, OptionState.apply, OptionState.applySigned]
  split
  next hoff =>
    rw [List.append_assoc]
    simp only [List.cons_append, List.nil_append, IsOptionConstruct.apply_eq]
    rw [applySigned_letters hs.on, hclose]
    funext l
    simp [Toggles.act, hoff, hw]
  · simp only [List.append_assoc, List.cons_append, List.nil_append, IsOptionConstruct.apply_eq]
    rw [applySigned_letters hs.on, OptionState.applySigned, if_neg (by decide), if_pos rfl,
      applySigned_letters hs.off, hclose]
    funext l
    have := hs.once l
    by_cases h1 : l.In (Toggles.ofConstructs constructs).on <;>
      by_cases h2 : l.In (Toggles.ofConstructs constructs).off <;> simp_all [Toggles.act]

theorem isOptionChar_of_isOptionLetter {c : Char} (h : isOptionLetter c) : isOptionChar c := by
  by_cases hupper : c.val ≥ 'A'.val ∧ c.val ≤ 'Z'.val
  · have hn : c.toNat ∈ List.range' 65 26 := by
      have h1 : 65 ≤ c.toNat := UInt32.le_iff_toNat_le.1 hupper.1
      have h2 : c.toNat ≤ 90 := UInt32.le_iff_toNat_le.1 hupper.2
      rw [List.mem_range'_1]
      omega
    have key : ∀ n ∈ List.range' 65 26,
        isOptionLetter (Char.ofNat n) → isOptionChar (Char.ofNat n) := by decide
    rw [← Char.ofNat_toNat c] at h ⊢
    exact key _ hn h
  · have hlower : c.toLower = c := dif_neg hupper
    rw [isOptionLetter, hlower] at h
    simp only [isOptionChar, List.contains_eq_mem, List.mem_cons, List.not_mem_nil, or_false,
      decide_eq_true_eq] at h ⊢
    tauto

/-- A net that sets something is an option construct. -/
theorem netOptions_eq {constructs : List Text} (h : ∀ c ∈ constructs, IsOptionConstruct c)
    (hne : netOptions constructs ≠ []) :
    ∃ c letters, isOptionChar c ∧ (∀ d ∈ letters, isOptionChar d) ∧
      netOptions constructs = '(' :: '?' :: c :: letters ++ [')'] := by
  obtain ⟨hs, -, -⟩ := Toggles.ofConstructs_spec h
  have hon := fun c hc => isOptionChar_of_isOptionLetter (hs.on c hc)
  have hoff := fun c hc => isOptionChar_of_isOptionLetter (hs.off c hc)
  have hall : ∀ d ∈ '-' :: (Toggles.ofConstructs constructs).off, isOptionChar d :=
    List.forall_mem_cons.2 ⟨by decide, hoff⟩
  simp only [netOptions] at hne ⊢
  split at hne
  · exact absurd rfl hne
  next hempty =>
    rw [if_neg hempty]
    cases he : (Toggles.ofConstructs constructs).on with
    | nil =>
      have : (Toggles.ofConstructs constructs).off ≠ [] := fun h => hempty ⟨he, h⟩
      exact ⟨'-', _, by decide, hoff, by simp [this]⟩
    | cons c letters =>
      rw [he] at hon
      obtain ⟨hc, hletters⟩ := List.forall_mem_cons.1 hon
      split
      · exact ⟨c, letters, hc, hletters, by simp⟩
      · exact ⟨c, _, hc, List.forall_mem_append.2 ⟨hletters, hall⟩, by simp⟩

/-- On the mode the net does what the constructs do one after another. -/
theorem mode_apply_netOptions {constructs : List Text} (h : ∀ c ∈ constructs, IsOptionConstruct c)
    (m : Mode) : m.apply (netOptions constructs) = constructs.foldl Mode.apply m := by
  have hst := congrArg OptionState.mode (apply_netOptions h fun
    | .x => m.freeSpacing
    | .n => m.explicitCapture
    | _ => false)
  rw [OptionState.mode_apply, OptionState.mode_applyAll] at hst
  exact hst

end RegexAnatomy
