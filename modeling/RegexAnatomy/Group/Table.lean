import RegexAnatomy.Group.Name

/-! The groups of a pattern, and what a number or a name denotes. Plain groups
own the numbers from 1 on, a numeric name owns the number it spells, and every
other name is given the least number that is still free, in order of first
appearance. -/

namespace RegexAnatomy

structure GroupId where
  /-- The number or name as written. -/
  token : Text
  number : Nat
  /-- The name of a numbered group, the numeral of a named one. -/
  counterpart : Option Text
  deriving DecidableEq

structure GroupTable where
  /-- The number of plain groups that capture. -/
  plain : Nat
  /-- The numbers spelled by numeric names. -/
  numeric : List Nat
  /-- The other names, as declared. -/
  named : List Text
  /-- The names with the numbers given to them, in ascending order of number. -/
  assigned : List (Text × Nat)
  deriving DecidableEq

def leastFree (taken : List Nat) (n : Nat) : Nat :=
  if h : n ∈ taken then
    have := List.length_erase_of_mem h
    have := List.length_pos_of_mem h
    leastFree (taken.erase n) (n + 1)
  else n
termination_by taken.length

/-- Gives each name in turn the least free number above those given before. -/
def assignNumbers (taken : List Nat) (next : Nat) : List Text → List (Text × Nat)
  | [] => []
  | name :: names =>
    let number := leastFree taken next
    (name, number) :: assignNumbers taken (number + 1) names

/-- The names that need a number, once each. A name that starts with a digit needs none. -/
def namesToNumber (names : List Text) : List Text :=
  (names.filter (! startsWithDigit ·)).eraseDups

def GroupTable.ofCaptures (plain : Nat) (names : List Text) : GroupTable :=
  let numeric := (names.filter isGroupNumber).map numeralValue
  { plain, numeric
    named := names.filter (! isGroupNumber ·)
    assigned := assignNumbers numeric (plain + 1) (namesToNumber names) }

def GroupTable.hasNumber (g : GroupTable) (n : Nat) : Bool :=
  (1 ≤ n && n ≤ g.plain) || g.numeric.contains n || g.assigned.any (·.2 = n)

/-- Leading zeros do not matter in a number. -/
def GroupTable.knows (g : GroupTable) (token : Text) : Bool :=
  if isGroupNumber token then g.hasNumber (numeralValue token) else g.named.contains token

def GroupTable.nameOf (g : GroupTable) (n : Nat) : Option Text :=
  (g.assigned.find? (·.2 = n)).map Prod.fst

def GroupTable.numberOf (g : GroupTable) (name : Text) : Option Nat :=
  (g.assigned.find? (·.1 = name)).map Prod.snd

/-- The group that a token denotes. A declared name that was given no number denotes none. -/
def GroupTable.resolve (g : GroupTable) (token : Text) : Option GroupId :=
  if isGroupNumber token then
    let n := numeralValue token
    if g.hasNumber n then some ⟨token, n, g.nameOf n⟩ else none
  else (g.numberOf token).map fun n => ⟨token, n, some (numeral n)⟩

structure GroupEntry where
  number : Nat
  name : Option Text
  deriving DecidableEq

def insertNumber (n : Nat) : List Nat → List Nat
  | [] => [n]
  | m :: ms => if n < m then n :: m :: ms else if n = m then m :: ms else m :: insertNumber n ms

def GroupTable.numbers (g : GroupTable) : List Nat :=
  (g.numeric ++ g.assigned.map Prod.snd).foldr insertNumber (List.range' 1 g.plain)

def GroupTable.entries (g : GroupTable) : List GroupEntry :=
  g.numbers.map fun n => ⟨n, g.nameOf n⟩

theorem le_leastFree (taken : List Nat) (n : Nat) : n ≤ leastFree taken n := by
  fun_induction leastFree taken n with
  | case1 => omega
  | case2 => exact Nat.le_refl _

theorem leastFree_not_mem (taken : List Nat) (n : Nat) : leastFree taken n ∉ taken := by
  fun_induction leastFree taken n with
  | case1 taken n _ _ _ ih =>
    have hle := le_leastFree (taken.erase n) (n + 1)
    intro h
    exact ih ((List.mem_erase_of_ne (by omega)).2 h)
  | case2 _ _ h => exact h

theorem mem_of_lt_leastFree {taken : List Nat} {n m : Nat} (hn : n ≤ m)
    (hm : m < leastFree taken n) : m ∈ taken := by
  fun_induction leastFree taken n with
  | case1 taken n h _ _ ih =>
    rcases Nat.eq_or_lt_of_le hn with rfl | hlt
    · exact h
    · exact List.mem_of_mem_erase (ih hlt hm)
  | case2 => omega

theorem assignNumbers_fst (taken : List Nat) (names : List Text) :
    ∀ next, (assignNumbers taken next names).map Prod.fst = names := by
  induction names with
  | nil => exact fun _ => rfl
  | cons name names ih => exact fun next => congrArg (name :: ·) (ih _)

/-- Only declared names are given numbers. -/
theorem mem_names_of_numberOf {plain n : Nat} {names : List Text} {name : Text}
    (h : (GroupTable.ofCaptures plain names).numberOf name = some n) : name ∈ names := by
  obtain ⟨entry, he, -⟩ := Option.map_eq_some_iff.1 h
  obtain rfl : entry.1 = name := by simpa using List.find?_some he
  have hm : entry.1 ∈ namesToNumber names := by
    rw [← assignNumbers_fst _ (namesToNumber names)]
    exact List.mem_map_of_mem (List.mem_of_find?_eq_some he)
  exact (List.mem_filter.1 (List.mem_eraseDups.1 hm)).1

@[simp] theorem mem_insertNumber {n m : Nat} {ms : List Nat} :
    m ∈ insertNumber n ms ↔ m = n ∨ m ∈ ms := by
  fun_induction insertNumber n ms with
  | case1 => simp
  | case2 => simp
  | case3 => simp
  | case4 k ks _ _ ih => simp [ih, or_left_comm]

theorem pairwise_insertNumber {n : Nat} {ms : List Nat} (h : ms.Pairwise (· < ·)) :
    (insertNumber n ms).Pairwise (· < ·) := by
  fun_induction insertNumber n ms with
  | case1 => simp
  | case2 m ms hlt =>
    refine List.pairwise_cons.2 ⟨fun k hk => ?_, h⟩
    rcases List.mem_cons.1 hk with rfl | hk
    · exact hlt
    · exact Nat.lt_trans hlt (List.rel_of_pairwise_cons h hk)
  | case3 => exact h
  | case4 m ms h1 h2 ih =>
    refine List.pairwise_cons.2 ⟨fun k hk => ?_, ih h.of_cons⟩
    rcases mem_insertNumber.1 hk with rfl | hk
    · omega
    · exact List.rel_of_pairwise_cons h hk

end RegexAnatomy
