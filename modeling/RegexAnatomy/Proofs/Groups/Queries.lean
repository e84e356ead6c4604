import RegexAnatomy.Proofs.Groups.Numbering

/-! What the table of groups answers to its different questions fits together: a
token is known if and only if it denotes a group, a name and its number lead to each
other, and the groups are listed once each, in ascending order, with their names. -/

namespace RegexAnatomy

def GroupTable.identity (g : GroupTable) (token : Text) : Option (Nat × Option Text) :=
  (g.resolve token).map fun id => (id.number, id.counterpart)

section Numerals

variable {g : GroupTable} {n : Nat} {token : Text}

theorem isNumeral_numeral (n : Nat) : isNumeral (numeral n) := by
  have hdigits : ∀ c ∈ numeral n, c.isDigit := fun c hc =>
    Nat.isDigit_of_mem_toDigits (by decide) (by decide) hc
  have hne : numeral n ≠ [] := Nat.toDigits_ne_nil
  simpa [isNumeral, hne] using hdigits

theorem isGroupNumber_numeral : isGroupNumber (numeral n) ↔ n < groupNumberBound := by
  simp [isGroupNumber, isNumeral_numeral, numeralValue_numeral]

theorem resolve_of_isGroupNumber (h : isGroupNumber token) :
    g.resolve token = if g.hasNumber (numeralValue token) then
      some ⟨token, numeralValue token, g.nameOf (numeralValue token)⟩ else none := by
  simp [GroupTable.resolve, h]

theorem resolve_numeral (hn : n < groupNumberBound) (h : g.hasNumber n) :
    g.resolve (numeral n) = some ⟨numeral n, n, g.nameOf n⟩ := by
  rw [resolve_of_isGroupNumber (isGroupNumber_numeral.2 hn), numeralValue_numeral, if_pos h]

/-- Of a number, only the value matters. -/
theorem GroupTable.identity_congr {s t : Text} (hs : isGroupNumber s) (ht : isGroupNumber t)
    (h : numeralValue s = numeralValue t) : g.identity s = g.identity t := by
  rw [GroupTable.identity, GroupTable.identity, resolve_of_isGroupNumber hs,
    resolve_of_isGroupNumber ht, h]
  split <;> rfl

end Numerals

section Declared

variable {plain n : Nat} {names : List Text} {name : Text}

theorem mem_assigned_numbers :
    n ∈ (GroupTable.ofCaptures plain names).assigned.map Prod.snd ↔
      ∃ name ∈ names, startsWithDigit name = false ∧
        ∃ id, (GroupTable.ofCaptures plain names).resolve name = some id ∧ id.number = n := by
  constructor
  · intro h
    obtain ⟨⟨name, n⟩, hmem, rfl⟩ := List.mem_map.1 h
    exact ⟨name, mem_names_of_numberOf (numberOf_eq_some_iff.2 hmem),
      startsWithDigit_of_mem_assigned hmem, _, resolve_of_mem_assigned hmem, rfl⟩
  · rintro ⟨name, -, hname, id, hid, rfl⟩
    rw [GroupTable.resolve, if_neg (by simp [isGroupNumber_eq_false hname])] at hid
    obtain ⟨n, hn, rfl⟩ := Option.map_eq_some_iff.1 hid
    exact List.mem_map_of_mem (f := Prod.snd) (numberOf_eq_some_iff.1 hn)

theorem mem_numeric :
    n ∈ (GroupTable.ofCaptures plain names).numeric ↔
      ∃ name ∈ names, isGroupNumber name ∧ numeralValue name = n := by
  simp [GroupTable.ofCaptures, and_assoc]

/-- All numbers of groups are group numbers. -/
theorem lt_groupNumberBound_of_hasNumber (h : plain + names.length < groupNumberBound)
    (hn : (GroupTable.ofCaptures plain names).hasNumber n) : n < groupNumberBound := by
  obtain ⟨-, hle⟩ | hnumeric | hassigned := GroupTable.hasNumber_iff.1 hn
  · change n ≤ plain at hle
    omega
  · obtain ⟨name, -, hname, rfl⟩ := mem_numeric.1 hnumeric
    simpa using (Bool.and_eq_true_iff.1 hname).2
  · obtain ⟨⟨name, n⟩, hmem, rfl⟩ := List.mem_map.1 hassigned
    exact lt_groupNumberBound_of_mem_assigned h hmem

theorem knows_numeral (h : plain + names.length < groupNumberBound)
    (hnames : ∀ name ∈ names, startsWithDigit name → isGroupNumber name) :
    (GroupTable.ofCaptures plain names).knows (numeral n) ↔
      (GroupTable.ofCaptures plain names).hasNumber n := by
  by_cases hn : n < groupNumberBound
  · rw [GroupTable.knows, if_pos (isGroupNumber_numeral.2 hn), numeralValue_numeral]
  refine iff_of_false (fun hknows => ?_) fun hnumber =>
    hn (lt_groupNumberBound_of_hasNumber h hnumber)
  -- a number that is too large is no name either, as names that start with a digit are small
  rw [GroupTable.knows, if_neg (mt isGroupNumber_numeral.1 hn), List.contains_iff_mem] at hknows
  have hmem : numeral n ∈ names := (List.mem_filter.1 hknows).1
  exact hn (isGroupNumber_numeral.1
    (hnames _ hmem (startsWithDigit_of_isNumeral (isNumeral_numeral n))))

/-- The name that a number stands for has that number. -/
theorem resolve_of_identity_numeral {token : Text} (ht : isNumeral token)
    (h : (GroupTable.ofCaptures plain names).identity token = some (n, some name)) :
    ∃ id, (GroupTable.ofCaptures plain names).resolve name = some id ∧ id.number = n := by
  obtain ⟨id, hid, hpair⟩ := Option.map_eq_some_iff.1 h
  obtain ⟨rfl, hname⟩ := Prod.mk.inj hpair
  by_cases hnumber : isGroupNumber token
  · rw [resolve_of_isGroupNumber hnumber] at hid
    split at hid <;> cases hid
    exact ⟨_, resolve_of_mem_assigned (nameOf_eq_some_iff.1 hname), rfl⟩
  · -- a token of digits is not the name of a group that was given a number
    rw [GroupTable.resolve, if_neg hnumber] at hid
    obtain ⟨m, hm, -⟩ := Option.map_eq_some_iff.1 hid
    have hd := startsWithDigit_of_mem_assigned (numberOf_eq_some_iff.1 hm)
    rw [startsWithDigit_of_isNumeral ht] at hd
    cases hd

end Declared

structure ConsistentAnswers (plain : Nat) (names : List Text) : Prop where
  known : ∀ token, (GroupTable.ofCaptures plain names).knows token ↔
    ((GroupTable.ofCaptures plain names).resolve token).isSome
  byValue : ∀ s t, isGroupNumber s → isGroupNumber t → numeralValue s = numeralValue t →
    (GroupTable.ofCaptures plain names).identity s = (GroupTable.ofCaptures plain names).identity t
  named : ∀ name ∈ names, startsWithDigit name = false →
    ∃ n, (GroupTable.ofCaptures plain names).identity name = some (n, some (numeral n)) ∧
      (GroupTable.ofCaptures plain names).identity (numeral n) = some (n, some name)
  numbered : ∀ token n name, isNumeral token →
    (GroupTable.ofCaptures plain names).identity token = some (n, some name) →
    ∃ id, (GroupTable.ofCaptures plain names).resolve name = some id ∧ id.number = n
  ascending : ((GroupTable.ofCaptures plain names).entries.map GroupEntry.number).Pairwise (· < ·)
  listed : ∀ n, n ∈ (GroupTable.ofCaptures plain names).entries.map GroupEntry.number ↔
    (GroupTable.ofCaptures plain names).knows (numeral n)
  numbers : ∀ n, n ∈ (GroupTable.ofCaptures plain names).entries.map GroupEntry.number ↔
    (1 ≤ n ∧ n ≤ plain) ∨ (∃ name ∈ names, isGroupNumber name ∧ numeralValue name = n) ∨
      ∃ name ∈ names, startsWithDigit name = false ∧
        ∃ id, (GroupTable.ofCaptures plain names).resolve name = some id ∧ id.number = n
  entryNames : ∀ entry ∈ (GroupTable.ofCaptures plain names).entries,
    (GroupTable.ofCaptures plain names).identity (numeral entry.number) =
      some (entry.number, entry.name)

theorem consistentAnswers {plain : Nat} {names : List Text}
    (h : plain + names.length < groupNumberBound)
    (hnames : ∀ name ∈ names, startsWithDigit name → isGroupNumber name) :
    ConsistentAnswers plain names where
  known token := ⟨resolve_isSome_of_knows hnames, knows_of_resolve⟩
  byValue s t := GroupTable.identity_congr
  named name hname hd := by
    have hsome : ((GroupTable.ofCaptures plain names).numberOf name).isSome :=
      numberOf_isSome hname hd
    obtain ⟨n, hn⟩ := Option.isSome_iff_exists.1 hsome
    have hmem := numberOf_eq_some_iff.1 hn
    have hnumber : (GroupTable.ofCaptures plain names).hasNumber n :=
      GroupTable.hasNumber_iff.2 (.inr (.inr (List.mem_map_of_mem (f := Prod.snd) hmem)))
    refine ⟨n, by rw [GroupTable.identity, resolve_of_mem_assigned hmem]; rfl, ?_⟩
    rw [GroupTable.identity, resolve_numeral (lt_groupNumberBound_of_hasNumber h hnumber) hnumber,
      nameOf_eq_some_iff.2 hmem]
    rfl
  numbered token n name := resolve_of_identity_numeral
  ascending := by
    rw [GroupTable.entries_number]
    exact GroupTable.pairwise_numbers _
  listed n := by
    rw [GroupTable.entries_number, GroupTable.mem_numbers, knows_numeral h hnames]
  numbers n := by
    rw [GroupTable.entries_number, GroupTable.mem_numbers, GroupTable.hasNumber_iff, mem_numeric,
      mem_assigned_numbers]
    rfl
  entryNames entry hentry := by
    obtain ⟨n, hn, rfl⟩ := List.mem_map.1 hentry
    have hnumber := GroupTable.mem_numbers.1 hn
    rw [GroupTable.identity, resolve_numeral (lt_groupNumberBound_of_hasNumber h hnumber) hnumber]
    rfl

theorem consistentAnswers_mixedNames :
    ConsistentAnswers 1 mixedNames ∧
      (GroupTable.ofCaptures 1 mixedNames).entries =
        [⟨1, none⟩, ⟨2, none⟩, ⟨3, some "b".toList⟩, ⟨4, none⟩, ⟨5, some "a".toList⟩] :=
  ⟨consistentAnswers (by decide) (by decide +kernel), by decide +kernel⟩

end RegexAnatomy
