import RegexAnatomy.Proofs.Groups
import Mathlib.Data.List.Sort
import Mathlib.Data.Nat.Nth

/-! Which numbers the names are given: the free ones, from the least on, where a
number is free if it is above those of the plain groups and no name spells it. A
name that is declared once more changes no answer of the table. -/

namespace RegexAnatomy

def IsFree (taken : List Nat) (next n : Nat) : Prop := next ≤ n ∧ n ∉ taken

instance (taken : List Nat) (next : Nat) : DecidablePred (IsFree taken next) :=
  fun n => inferInstanceAs (Decidable (next ≤ n ∧ n ∉ taken))

section Free

variable {taken taken' : List Nat} {next n : Nat}

theorem isFree_leastFree : IsFree taken next (leastFree taken next) :=
  ⟨le_leastFree taken next, leastFree_not_mem taken next⟩

theorem IsFree.leastFree_le (h : IsFree taken next n) : leastFree taken next ≤ n := by
  rw [← Nat.not_lt]
  exact fun hlt => h.2 (mem_of_lt_leastFree h.1 hlt)

/-- How often a number is listed, and in which order, does not matter. -/
theorem leastFree_congr (h : ∀ n, n ∈ taken ↔ n ∈ taken') :
    leastFree taken next = leastFree taken' next := by
  have hfree : ∀ n, IsFree taken next n ↔ IsFree taken' next n :=
    fun n => and_congr_right fun _ => not_congr (h n)
  exact Nat.le_antisymm ((hfree _).2 isFree_leastFree).leastFree_le
    ((hfree _).1 isFree_leastFree).leastFree_le

/-- The free numbers are the least one and those above it. -/
theorem isFree_succ_leastFree (hn : leastFree taken next < n) :
    IsFree taken (leastFree taken next + 1) n ↔ IsFree taken next n := by
  have hle := le_leastFree taken next
  exact and_congr_left fun _ => by omega

theorem count_isFree (hn : n ≤ leastFree taken next) : Nat.count (IsFree taken next) n = 0 :=
  Nat.count_iff_forall_not.2 fun m hm hfree => by
    have := hfree.leastFree_le
    omega

theorem count_isFree_succ (hn : leastFree taken next < n) :
    Nat.count (IsFree taken next) n =
      Nat.count (IsFree taken (leastFree taken next + 1)) n + 1 := by
  induction n, hn using Nat.le_induction with
  | base =>
    have habove :
        Nat.count (IsFree taken (leastFree taken next + 1)) (leastFree taken next + 1) = 0 :=
      count_isFree (le_leastFree taken _)
    rw [habove, Nat.count_succ, count_isFree (Nat.le_refl _), if_pos isFree_leastFree]
  | succ m hm ih =>
    rw [Nat.count_succ, Nat.count_succ, ih]
    simp only [isFree_succ_leastFree hm]
    omega

/-- Below a number, whatever is not free is too small or taken. -/
theorem le_add_count_isFree (taken : List Nat) (next n : Nat) :
    n ≤ next + taken.length + Nat.count (IsFree taken next) n := by
  have hrest : (Finset.range n).filter (¬ IsFree taken next ·) ⊆
      Finset.range next ∪ taken.toFinset := by
    intro m hm
    have hm : ¬ (next ≤ m ∧ m ∉ taken) := (Finset.mem_filter.1 hm).2
    rw [Finset.mem_union, Finset.mem_range, List.mem_toFinset]
    by_cases hmem : m ∈ taken
    · exact .inr hmem
    · exact .inl (Nat.not_le.1 fun hle => hm ⟨hle, hmem⟩)
  have hcard := Finset.card_le_card hrest
  have hunion := Finset.card_union_le (Finset.range next) taken.toFinset
  have htaken := List.toFinset_card_le taken
  have hsum := Finset.card_filter_add_card_filter_not (s := Finset.range n) (IsFree taken next)
  rw [← Nat.count_eq_card_filter_range, Finset.card_range] at hsum
  rw [Finset.card_range] at hunion
  omega

end Free

section Assigned

variable {taken taken' : List Nat} {names : List Text}

theorem assignNumbers_congr (h : ∀ n, n ∈ taken ↔ n ∈ taken') :
    ∀ (names : List Text) (next : Nat),
      assignNumbers taken next names = assignNumbers taken' next names
  | [], _ => rfl
  | name :: names, next => by
    simp only [assignNumbers, leastFree_congr h, assignNumbers_congr h names]

/-- The entry at a place has a free number, and as many free numbers are below it as entries
stand before it. -/
theorem assignNumbers_getElem? {next j : Nat} {entry : Text × Nat}
    (h : (assignNumbers taken next names)[j]? = some entry) :
    IsFree taken next entry.2 ∧ Nat.count (IsFree taken next) entry.2 = j := by
  induction names generalizing next j with
  | nil => cases h
  | cons name names ih =>
    cases j with
    | zero =>
      obtain rfl := Option.some.inj h
      exact ⟨isFree_leastFree, count_isFree (Nat.le_refl _)⟩
    | succ j =>
      obtain ⟨hfree, hcount⟩ := ih h
      have habove : leastFree taken next < entry.2 := hfree.1
      exact ⟨(isFree_succ_leastFree habove).1 hfree, by rw [count_isFree_succ habove, hcount]⟩

theorem isFree_of_mem_assignNumbers {next : Nat} {entry : Text × Nat}
    (h : entry ∈ assignNumbers taken next names) : IsFree taken next entry.2 := by
  obtain ⟨j, hj⟩ := List.mem_iff_getElem?.1 h
  exact (assignNumbers_getElem? hj).1

theorem pairwise_assignNumbers :
    ∀ (names : List Text) (next : Nat),
      (assignNumbers taken next names).Pairwise (·.2 < ·.2)
  | [], _ => .nil
  | _ :: names, _ =>
    .cons (fun _ h => (isFree_of_mem_assignNumbers h).1) (pairwise_assignNumbers names _)

end Assigned

theorem nodup_eraseDups (l : List Text) : l.eraseDups.Nodup := by
  induction hn : l.length using Nat.strong_induction_on generalizing l with
  | _ n ih =>
    cases l with
    | nil => simp
    | cons a l =>
      rw [List.eraseDups_cons]
      refine List.nodup_cons.2 ⟨fun h => ?_, ih _ ?_ _ rfl⟩
      · simpa using List.mem_eraseDups.1 h
      · have := List.length_filter_le (fun b => !b == a) l
        simp only [List.length_cons] at hn
        omega

/-- In a list of rows with distinct keys, the row of a key is the one that is found. -/
theorem find?_key_eq_some_iff {α β : Type} [DecidableEq β] {key : α → β} {rows : List α}
    (h : (rows.map key).Nodup) {k : β} {row : α} :
    rows.find? (fun r => decide (key r = k)) = some row ↔ row ∈ rows ∧ key row = k := by
  induction rows with
  | nil => simp
  | cons r rows ih =>
    obtain ⟨hr, hrows⟩ := List.nodup_cons.1 h
    by_cases hk : key r = k
    · rw [List.find?_cons_of_pos (by simpa using hk), Option.some.injEq, List.mem_cons]
      refine ⟨by rintro rfl; exact ⟨.inl rfl, hk⟩, ?_⟩
      rintro ⟨rfl | hmem, hkey⟩
      · rfl
      · exact absurd (List.mem_map.2 ⟨row, hmem, hkey.trans hk.symm⟩) hr
    · rw [List.find?_cons_of_neg (by simpa using hk), ih hrows, List.mem_cons]
      refine and_congr_left fun hkey => ⟨.inr, fun hmem => hmem.resolve_left ?_⟩
      rintro rfl
      exact hk hkey

section Table

variable {plain n : Nat} {names : List Text} {name : Text}

theorem startsWithDigit_of_isNumeral {t : Text} (h : isNumeral t) : startsWithDigit t := by
  cases t with
  | nil => cases h
  | cons c t =>
    have hall : (c :: t).all Char.isDigit := (Bool.and_eq_true_iff.1 h).2
    exact List.all_eq_true.1 hall c List.mem_cons_self

theorem isGroupNumber_eq_false (h : startsWithDigit name = false) : isGroupNumber name = false := by
  rw [← Bool.not_eq_true] at h ⊢
  exact fun hn => h (startsWithDigit_of_isNumeral (Bool.and_eq_true_iff.1 hn).1)

theorem startsWithDigit_of_mem_namesToNumber (h : name ∈ namesToNumber names) :
    startsWithDigit name = false := by
  simpa using (List.mem_filter.1 (List.mem_eraseDups.1 h)).2

theorem GroupTable.pairwise_assigned :
    (GroupTable.ofCaptures plain names).assigned.Pairwise (·.2 < ·.2) :=
  pairwise_assignNumbers _ _

theorem GroupTable.assigned_names (plain : Nat) (names : List Text) :
    (GroupTable.ofCaptures plain names).assigned.map Prod.fst = namesToNumber names :=
  assignNumbers_fst _ _ _

theorem GroupTable.nodup_assigned_names :
    ((GroupTable.ofCaptures plain names).assigned.map Prod.fst).Nodup := by
  rw [GroupTable.assigned_names]
  exact nodup_eraseDups _

theorem GroupTable.nodup_assigned_numbers :
    ((GroupTable.ofCaptures plain names).assigned.map Prod.snd).Nodup :=
  (List.pairwise_map.2 GroupTable.pairwise_assigned).imp Nat.ne_of_lt

/-- Names and the numbers given to them are found by one another. -/
theorem numberOf_eq_some_iff :
    (GroupTable.ofCaptures plain names).numberOf name = some n ↔
      (name, n) ∈ (GroupTable.ofCaptures plain names).assigned := by
  simp [GroupTable.numberOf, Option.map_eq_some_iff,
    find?_key_eq_some_iff GroupTable.nodup_assigned_names]

theorem nameOf_eq_some_iff :
    (GroupTable.ofCaptures plain names).nameOf n = some name ↔
      (name, n) ∈ (GroupTable.ofCaptures plain names).assigned := by
  simp [GroupTable.nameOf, Option.map_eq_some_iff,
    find?_key_eq_some_iff GroupTable.nodup_assigned_numbers]

/-- The numeric names and the new ones are different names. -/
theorem length_numeric_add_length_namesToNumber_le (plain : Nat) (names : List Text) :
    (GroupTable.ofCaptures plain names).numeric.length + (namesToNumber names).length ≤
      names.length := by
  have hnew : (namesToNumber names).length ≤ names.countP (! startsWithDigit ·) := by
    rw [List.countP_eq_length_filter]
    exact (List.subperm_of_subset (nodup_eraseDups _) fun _ h => List.mem_eraseDups.1 h).length_le
  have hother : names.countP (! startsWithDigit ·) ≤ names.countP (! isGroupNumber ·) :=
    List.countP_mono_left fun name _ h => by
      rw [isGroupNumber_eq_false (by simpa using h)]
      rfl
  have hsplit := List.length_eq_countP_add_countP isGroupNumber (l := names)
  have hnumeric : (GroupTable.ofCaptures plain names).numeric.length =
      names.countP isGroupNumber := by
    simp [GroupTable.ofCaptures, List.countP_eq_length_filter]
  simp only [Bool.not_eq_true, Bool.decide_eq_false] at hsplit
  omega

theorem startsWithDigit_of_mem_assigned
    (h : (name, n) ∈ (GroupTable.ofCaptures plain names).assigned) :
    startsWithDigit name = false := by
  have hname : name ∈ namesToNumber names := by
    rw [← GroupTable.assigned_names plain names]
    exact List.mem_map_of_mem h
  exact startsWithDigit_of_mem_namesToNumber hname

theorem resolve_of_mem_assigned (h : (name, n) ∈ (GroupTable.ofCaptures plain names).assigned) :
    (GroupTable.ofCaptures plain names).resolve name = some ⟨name, n, some (numeral n)⟩ := by
  have hname := isGroupNumber_eq_false (startsWithDigit_of_mem_assigned h)
  simp [GroupTable.resolve, hname, numberOf_eq_some_iff.2 h]

/-- The numbers given to names are group numbers. -/
theorem lt_groupNumberBound_of_mem_assigned (h : plain + names.length < groupNumberBound)
    (hmem : (name, n) ∈ (GroupTable.ofCaptures plain names).assigned) : n < groupNumberBound := by
  obtain ⟨j, hj⟩ := List.mem_iff_getElem?.1 hmem
  obtain ⟨-, hcount⟩ := assignNumbers_getElem? hj
  have hlt : j < (namesToNumber names).length := by
    rw [← GroupTable.assigned_names plain names, List.length_map]
    exact (List.getElem?_eq_some_iff.1 hj).1
  have hle := le_add_count_isFree (GroupTable.ofCaptures plain names).numeric (plain + 1) n
  have hlength := length_numeric_add_length_namesToNumber_le plain names
  change Nat.count (IsFree (GroupTable.ofCaptures plain names).numeric (plain + 1)) n = j at hcount
  omega

end Table

/-- A number that is above those of the plain groups and that no name spells. -/
def IsFreeNumber (plain : Nat) (names : List Text) (n : Nat) : Prop :=
  plain < n ∧ ∀ name ∈ names, isGroupNumber name → numeralValue name ≠ n

theorem isFreeNumber_iff {plain n : Nat} {names : List Text} :
    IsFreeNumber plain names n ↔
      IsFree (GroupTable.ofCaptures plain names).numeric (plain + 1) n := by
  simp [IsFreeNumber, IsFree, GroupTable.ofCaptures]

structure GroupTable.Alike (g g' : GroupTable) : Prop where
  knows : ∀ token, g.knows token = g'.knows token
  resolve : ∀ token, g.resolve token = g'.resolve token
  entries : g.entries = g'.entries

section Alike

variable {g g' : GroupTable}

theorem GroupTable.pairwise_numbers (g : GroupTable) : g.numbers.Pairwise (· < ·) := by
  rw [GroupTable.numbers]
  induction g.numeric ++ g.assigned.map Prod.snd with
  | nil => exact List.pairwise_lt_range'
  | cons n ns ih => exact pairwise_insertNumber ih

/-- The answers do not depend on how often a name is listed, or where. -/
theorem GroupTable.alike (hplain : g.plain = g'.plain) (hassigned : g.assigned = g'.assigned)
    (hnumeric : ∀ n, n ∈ g.numeric ↔ n ∈ g'.numeric)
    (hnamed : ∀ name, name ∈ g.named ↔ name ∈ g'.named) : g.Alike g' := by
  have hnumber : ∀ n, g.hasNumber n = g'.hasNumber n := fun n => by
    rw [Bool.eq_iff_iff, GroupTable.hasNumber_iff, GroupTable.hasNumber_iff, hplain, hassigned,
      hnumeric]
  have hnameOf : g.nameOf = g'.nameOf := by
    funext n
    rw [GroupTable.nameOf, hassigned, GroupTable.nameOf]
  have hnumbers : g.numbers = g'.numbers :=
    g.pairwise_numbers.eq_of_mem_iff g'.pairwise_numbers fun n => by
      rw [GroupTable.mem_numbers, GroupTable.mem_numbers, hnumber]
  refine ⟨fun token => ?_, fun token => ?_, ?_⟩
  · have hcontains : g.named.contains token = g'.named.contains token := by
      rw [Bool.eq_iff_iff, List.contains_iff_mem, List.contains_iff_mem, hnamed]
    rw [GroupTable.knows, GroupTable.knows, hnumber, hcontains]
  · simp only [GroupTable.resolve, GroupTable.numberOf, hnumber, hnameOf, hassigned]
  · rw [GroupTable.entries, GroupTable.entries, hnumbers, hnameOf]

theorem namesToNumber_repeat {before after : List Text} {name : Text} (h : name ∈ before) :
    namesToNumber (before ++ name :: after) = namesToNumber (before ++ after) := by
  simp only [namesToNumber, List.filter_append, List.eraseDups_append, List.filter_cons]
  split
  next hnew =>
    have hname : startsWithDigit name = false := by simpa using hnew
    simp [List.removeAll, h, hname]
  next => rfl

/-- A name that is declared once more changes nothing. -/
theorem alike_repeat {plain : Nat} {before after : List Text} {name : Text} (h : name ∈ before) :
    (GroupTable.ofCaptures plain (before ++ name :: after)).Alike
      (GroupTable.ofCaptures plain (before ++ after)) := by
  have hmem : ∀ a, a ∈ before ++ name :: after ↔ a ∈ before ++ after := fun a => by
    simp only [List.mem_append, List.mem_cons]
    refine ⟨?_, fun ha => ha.imp_right .inr⟩
    rintro (ha | rfl | ha)
    exacts [.inl ha, .inl h, .inr ha]
  have hnumeric : ∀ n, n ∈ (GroupTable.ofCaptures plain (before ++ name :: after)).numeric ↔
      n ∈ (GroupTable.ofCaptures plain (before ++ after)).numeric := fun n => by
    simp only [GroupTable.ofCaptures, List.mem_map, List.mem_filter, hmem]
  refine GroupTable.alike rfl ?_ hnumeric fun a => ?_
  · simp only [GroupTable.ofCaptures, namesToNumber_repeat h]
    exact assignNumbers_congr hnumeric _ _
  · simp only [GroupTable.ofCaptures, List.mem_filter, hmem]

end Alike

/-- The names that are not numbers get the least numbers that are free, in the order in which they
appear first. -/
structure LeastFreeNumbers (plain : Nat) (names : List Text) : Prop where
  given : ∀ j name, (namesToNumber names)[j]? = some name →
    ∃ id, (GroupTable.ofCaptures plain names).resolve name = some id ∧
      id.number = Nat.nth (IsFreeNumber plain names) j ∧
      IsFreeNumber plain names id.number ∧ id.number < groupNumberBound
  ascending : (namesToNumber names).Pairwise fun a b =>
    ∀ first second, (GroupTable.ofCaptures plain names).resolve a = some first →
      (GroupTable.ofCaptures plain names).resolve b = some second → first.number < second.number
  repeated : ∀ before name after, names = before ++ name :: after → name ∈ before →
    (GroupTable.ofCaptures plain names).Alike (GroupTable.ofCaptures plain (before ++ after))

theorem leastFreeNumbers {plain : Nat} {names : List Text}
    (h : plain + names.length < groupNumberBound) : LeastFreeNumbers plain names := by
  have hnames := GroupTable.assigned_names plain names
  refine ⟨fun j name hj => ?_, ?_, ?_⟩
  · obtain ⟨entry, hentry, rfl⟩ : ∃ entry,
        (GroupTable.ofCaptures plain names).assigned[j]? = some entry ∧ entry.1 = name := by
      rwa [← hnames, List.getElem?_map, Option.map_eq_some_iff] at hj
    obtain ⟨hfree, hcount⟩ := assignNumbers_getElem? hentry
    have hmem := List.mem_of_getElem? hentry
    refine ⟨_, resolve_of_mem_assigned hmem, ?_, isFreeNumber_iff.2 hfree,
      lt_groupNumberBound_of_mem_assigned h hmem⟩
    have hiff : IsFreeNumber plain names =
        IsFree (GroupTable.ofCaptures plain names).numeric (plain + 1) :=
      funext fun _ => propext isFreeNumber_iff
    calc entry.2 = _ := (Nat.nth_count hfree).symm
      _ = _ := by rw [hiff]; exact congrArg _ hcount
  · rw [← hnames, List.pairwise_map]
    refine GroupTable.pairwise_assigned.imp_of_mem fun ha hb hlt first second hfirst hsecond => ?_
    rw [resolve_of_mem_assigned ha] at hfirst
    rw [resolve_of_mem_assigned hb] at hsecond
    cases hfirst
    cases hsecond
    exact hlt
  · rintro before name after rfl hname
    exact alike_repeat hname

def mixedNames : List Text := ["b".toList, "2".toList, "a".toList, "b".toList, "04".toList]

theorem leastFreeNumbers_mixedNames :
    LeastFreeNumbers 1 mixedNames ∧
      (namesToNumber mixedNames).map (GroupTable.ofCaptures 1 mixedNames).numberOf =
        [some 3, some 5] :=
  ⟨leastFreeNumbers (by decide), by decide +kernel⟩

end RegexAnatomy
