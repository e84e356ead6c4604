import RegexAnatomy.Group.Table

/-! What tokens denote. A token that is resolved denotes a group whose number the
table lists; and a declared name, or a number that some group has, is resolved, if
no name starts with a digit unless it is a number of a group itself. -/

namespace RegexAnatomy

structure GroupTable.Lists (g : GroupTable) (id : GroupId) : Prop where
  resolves : g.resolve id.token = some id
  listed : id.number ∈ g.entries.map GroupEntry.number

section Listed

variable {g : GroupTable}

theorem mem_foldr_insertNumber {n : Nat} {ns ms : List Nat} :
    n ∈ ns.foldr insertNumber ms ↔ n ∈ ns ∨ n ∈ ms := by
  induction ns with
  | nil => simp
  | cons k ns ih => simp [ih, or_assoc]

/-- A number is that of a plain group, one that a name spells, or one given to a name. -/
theorem GroupTable.hasNumber_iff {n : Nat} :
    g.hasNumber n ↔ (1 ≤ n ∧ n ≤ g.plain) ∨ n ∈ g.numeric ∨ n ∈ g.assigned.map Prod.snd := by
  simp [GroupTable.hasNumber, or_assoc]

theorem GroupTable.mem_numbers {n : Nat} : n ∈ g.numbers ↔ g.hasNumber n := by
  have hplain : n ∈ List.range' 1 g.plain ↔ 1 ≤ n ∧ n ≤ g.plain := by
    rw [List.mem_range'_1]
    omega
  rw [GroupTable.numbers, mem_foldr_insertNumber, List.mem_append, hplain,
    GroupTable.hasNumber_iff, or_comm]

theorem GroupTable.entries_number : g.entries.map GroupEntry.number = g.numbers := by
  simp [GroupTable.entries, Function.comp_def]

theorem GroupTable.hasNumber_of_numberOf {name : Text} {n : Nat} (h : g.numberOf name = some n) :
    g.hasNumber n := by
  obtain ⟨entry, he, rfl⟩ := Option.map_eq_some_iff.1 h
  exact GroupTable.hasNumber_iff.2
    (.inr (.inr (List.mem_map_of_mem (List.mem_of_find?_eq_some he))))

theorem GroupTable.resolve_token {token : Text} {id : GroupId} (h : g.resolve token = some id) :
    id.token = token := by
  simp only [GroupTable.resolve] at h
  split at h
  · split at h <;> cases h
    rfl
  · obtain ⟨n, -, rfl⟩ := Option.map_eq_some_iff.1 h
    rfl

theorem GroupTable.hasNumber_of_resolve {token : Text} {id : GroupId}
    (h : g.resolve token = some id) : g.hasNumber id.number := by
  simp only [GroupTable.resolve] at h
  split at h
  · split at h <;> cases h
    assumption
  · obtain ⟨n, hn, rfl⟩ := Option.map_eq_some_iff.1 h
    exact GroupTable.hasNumber_of_numberOf hn

/-- What a token is resolved to is a group of the table. -/
theorem GroupTable.lists_of_resolve {token : Text} {id : GroupId} (h : g.resolve token = some id) :
    g.Lists id := by
  refine ⟨?_, ?_⟩
  · rw [GroupTable.resolve_token h, h]
  · rw [GroupTable.entries_number, GroupTable.mem_numbers]
    exact GroupTable.hasNumber_of_resolve h

end Listed

section Declared

variable {plain : Nat} {names : List Text}

theorem numberOf_isSome {name : Text} (h : name ∈ names) (hd : startsWithDigit name = false) :
    ((GroupTable.ofCaptures plain names).numberOf name).isSome := by
  have hname : name ∈ namesToNumber names :=
    List.mem_eraseDups.2 (List.mem_filter.2 ⟨h, by simp [hd]⟩)
  rw [← assignNumbers_fst ((names.filter isGroupNumber).map numeralValue)
    (namesToNumber names) (plain + 1)] at hname
  obtain ⟨entry, he, rfl⟩ := List.mem_map.1 hname
  rw [GroupTable.numberOf, Option.isSome_map, List.find?_isSome]
  exact ⟨entry, he, by simp⟩

theorem knows_of_mem {name : Text} (h : name ∈ names) :
    (GroupTable.ofCaptures plain names).knows name := by
  unfold GroupTable.knows
  split
  next hn =>
    have hnumeric : numeralValue name ∈ (names.filter isGroupNumber).map numeralValue :=
      List.mem_map_of_mem (List.mem_filter.2 ⟨h, hn⟩)
    exact GroupTable.hasNumber_iff.2 (.inr (.inl hnumeric))
  next hn =>
    simpa [GroupTable.ofCaptures] using And.intro h hn

/-- Every token that the table knows denotes a group. -/
theorem resolve_isSome_of_knows {token : Text}
    (hn : ∀ name ∈ names, startsWithDigit name → isGroupNumber name)
    (h : (GroupTable.ofCaptures plain names).knows token) :
    ((GroupTable.ofCaptures plain names).resolve token).isSome := by
  unfold GroupTable.knows at h
  unfold GroupTable.resolve
  split at h
  next hnumber => simp [hnumber, h]
  next hnumber =>
    have hname : token ∈ names := by
      have hfilter : token ∈ names.filter (! isGroupNumber ·) := List.contains_iff_mem.1 h
      exact (List.mem_filter.1 hfilter).1
    have hd : startsWithDigit token = false := by
      rw [← Bool.not_eq_true]
      exact fun hd => hnumber (hn token hname hd)
    rw [if_neg hnumber, Option.isSome_map]
    exact numberOf_isSome hname hd

/-- A token that denotes a group is known. -/
theorem knows_of_resolve {token : Text}
    (h : ((GroupTable.ofCaptures plain names).resolve token).isSome) :
    (GroupTable.ofCaptures plain names).knows token := by
  by_cases hnumber : isGroupNumber token
  · rw [GroupTable.resolve, if_pos hnumber] at h
    rw [GroupTable.knows, if_pos hnumber]
    dsimp only at h
    split at h
    next hn => exact hn
    next => cases h
  · rw [GroupTable.resolve, if_neg hnumber, Option.isSome_map, Option.isSome_iff_exists] at h
    obtain ⟨n, hn⟩ := h
    exact knows_of_mem (mem_names_of_numberOf hn)

/-- The empty text denotes no group. -/
theorem resolve_nil (h : ∀ name ∈ names, name ≠ []) :
    (GroupTable.ofCaptures plain names).resolve [] = none := by
  have hnone : (GroupTable.ofCaptures plain names).numberOf [] = none :=
    Option.eq_none_iff_forall_ne_some.2 fun n hn => h [] (mem_names_of_numberOf hn) rfl
  simp [GroupTable.resolve, hnone, isGroupNumber, isNumeral]

end Declared

end RegexAnatomy
