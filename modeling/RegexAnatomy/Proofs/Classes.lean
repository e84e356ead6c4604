import RegexAnatomy.Proofs.Reading.Blocks

/-! What a cursor makes of an opening bracket. It reads the class that stands there, which
is the only one, and where no class stands it stops. The reading of a class calls for
the reading of what is left of it, and of the classes in it, but never on end: as many
readings one inside another as the text has characters, and one more, are enough. -/

namespace RegexAnatomy

/-- Reads class items with at most `budget` readings one inside another; `none` when they are not
enough. -/
def readClassItemsWithin (budget : Nat) (opened t : Text) :
    Option (Except Fault (Text × Text)) :=
  match budget with
  | 0 => none
  | budget + 1 =>
    match t with
    | [] => some (.error (.malformed .unclosedClass opened))
    | ']' :: rest => some (.ok ([']'], rest))
    | ['\\'] => some (.error (.malformed .trailingBackslash ['\\']))
    | '\\' :: c :: rest =>
      match escapeArgument c rest with
      | none => some (.error (.malformed (.badEscape c) ('\\' :: c :: rest)))
      | some (arg, after) =>
        (readClassItemsWithin budget opened after).map fun
          | .error fault => .error fault
          | .ok (more, after) => .ok ('\\' :: c :: arg ++ more, after)
    | '-' :: '[' :: rest =>
      (readClassItemsWithin budget ('[' :: rest) (splitClassHead rest).2).map fun
        | .error fault => .error fault
        | .ok (inner, ']' :: after) =>
          .ok ('-' :: '[' :: (splitClassHead rest).1 ++ inner ++ [']'], after)
        | .ok (_, after) => .error (.malformed .misplacedSubtraction after)
    | c :: rest =>
      (readClassItemsWithin budget opened rest).map fun
        | .error fault => .error fault
        | .ok (more, after) => .ok (c :: more, after)

/-- The text gets shorter from one reading to the next inside it. -/
theorem readClassItemsWithin_eq {budget : Nat} {opened t : Text} (h : t.length < budget) :
    readClassItemsWithin budget opened t = some (readClassItems opened t) := by
  induction budget generalizing opened t with
  | zero => cases h
  | succ budget ih =>
    unfold readClassItems
    split
    next => rfl
    next => rfl
    next => rfl
    next c rest =>
      split
      next hesc => simp only [readClassItemsWithin, hesc]
      next arg after hesc =>
        have hlength := escapeArgument_length hesc
        have hread : readClassItemsWithin budget opened after = _ := ih (by simp at h; omega)
        simp only [readClassItemsWithin, hesc, hread]
        cases readClassItems opened after <;> rfl
    next rest =>
      have hlength := splitClassHead_length rest
      have hread : readClassItemsWithin budget ('[' :: rest) (splitClassHead rest).2 = _ :=
        ih (by simp at h; omega)
      simp only [readClassItemsWithin, hread]
      cases readClassItems ('[' :: rest) (splitClassHead rest).2 with
      | error => rfl
      | ok read =>
        obtain ⟨inner, - | ⟨c, after⟩⟩ := read
        · rfl
        · by_cases hc : c = ']'
          · subst hc; rfl
          · simp [hc]
    next c rest h1 h2 h3 h4 =>
      have hread : readClassItemsWithin budget opened rest = _ := ih (by simpa using h)
      rw [readClassItemsWithin, hread]
      · cases readClassItems opened rest <;> rfl
      all_goals assumption

section Leads

variable {ctx : Context} {t v w : Text} {lead : Lead}

/-- No two classes stand at the front of one text. -/
theorem IsClass.eq_of_isPrefix (hv : IsClass v) (hw : IsClass w) (hvt : v <+: '[' :: t)
    (hwt : w <+: '[' :: t) : v = w := by
  obtain ⟨a, ha⟩ := hvt
  obtain ⟨b, hb⟩ := hwt
  have hread := readClass_eq_ok.2 ⟨hv, ha⟩
  rw [readClass_eq_ok.2 ⟨hw, hb⟩] at hread
  cases hread
  rfl

theorem readLead_bracket (ctx : Context) (t : Text) : readLead ctx ('[' :: t) =
    (readClass t).map fun read => some ⟨.charClass read.1, read.2, true⟩ := by
  simp only [readLead]
  cases readClass t <;> rfl

theorem readLead_bracket_eq_ok : readLead ctx ('[' :: t) = .ok (some lead) ↔
    ∃ w rest, IsClass w ∧ w ++ rest = '[' :: t ∧ lead = ⟨.charClass w, rest, true⟩ := by
  rw [readLead_bracket]
  constructor
  · intro h
    cases hread : readClass t with
    | error => rw [hread] at h; cases h
    | ok read =>
      rw [hread] at h
      cases h
      obtain ⟨hw, happ⟩ := readClass_eq_ok.1 hread
      exact ⟨read.1, read.2, hw, happ, rfl⟩
  · rintro ⟨w, rest, hw, happ, rfl⟩
    rw [readClass_eq_ok.2 ⟨hw, happ⟩]
    rfl

theorem readLead_bracket_eq_error : (∃ fault, readLead ctx ('[' :: t) = .error fault) ↔
    ¬ ∃ w, IsClass w ∧ w <+: '[' :: t := by
  constructor
  · rintro ⟨fault, h⟩ ⟨w, hw, rest, happ⟩
    rw [readLead_bracket_eq_ok.2 ⟨w, rest, hw, happ, rfl⟩] at h
    cases h
  · intro h
    cases hread : readClass t with
    | error fault => exact ⟨fault, by rw [readLead_bracket, hread]; rfl⟩
    | ok read =>
      obtain ⟨hw, happ⟩ := readClass_eq_ok.1 hread
      exact absurd ⟨read.1, hw, read.2, happ⟩ h

end Leads

structure Cursor.ReadsClass (s : Cursor) : Prop where
  scan : ∀ lead, readLead s.context s.unread = .ok (some lead) ↔
    ∃ w rest, IsClass w ∧ w ++ rest = s.unread ∧ lead = ⟨.charClass w, rest, true⟩
  unique : ∀ v w, IsClass v → IsClass w → v <+: s.unread → w <+: s.unread → v = w
  fails : (∃ fault, readLead s.context s.unread = .error fault) ↔
    ¬ ∃ w, IsClass w ∧ w <+: s.unread
  block : ∀ b s₁, s.next = .ok (some (b, s₁)) →
    ∃ w, IsClass w ∧ w <+: s.unread ∧ b.token = .charClass w
  stops : (¬ ∃ w, IsClass w ∧ w <+: s.unread) → ∃ fault, s.next = .error fault
  /-- The readings of what is left of the class, or of a class in it, come to an end. -/
  ends : ∀ budget opened t, t <:+ s.unread → s.unread.length < budget →
    readClassItemsWithin budget opened t = some (readClassItems opened t)

/-- At an opening bracket the class that stands there is read. -/
theorem readsClass {s : Cursor} {t : Text} (h : s.unread = '[' :: t) : s.ReadsClass := by
  have ht : StartsToken s.mode.freeSpacing s.unread := by
    rw [h]
    exact .of_shut (shut_operator (by decide))
  refine ⟨fun lead => ?_, fun v w hv hw => ?_, ?_, fun b s₁ hn => ?_, fun hnone => ?_,
    fun budget opened u hu hbudget => ?_⟩
  · rw [h]
    exact readLead_bracket_eq_ok
  · rw [h]
    exact hv.eq_of_isPrefix hw
  · rw [h]
    exact readLead_bracket_eq_error
  · obtain ⟨lead, htoken, hl, -⟩ := Cursor.next_of_startsToken hn ht
    rw [h] at hl ⊢
    obtain ⟨w, rest, hw, happ, rfl⟩ := readLead_bracket_eq_ok.1 hl
    exact ⟨w, hw, ⟨rest, happ⟩, htoken.symm⟩
  · have htrivia := startsToken_iff.1 ⟨ht, rfl⟩
    rw [h] at hnone
    obtain ⟨fault, hf⟩ : ∃ fault, readLead s.context ('[' :: t) = .error fault :=
      readLead_bracket_eq_error.2 hnone
    rw [← h] at hf
    refine ⟨fault, ?_⟩
    simp only [Cursor.next, htrivia, hf, bind, Except.bind]
    rfl
  · exact readClassItemsWithin_eq (Nat.lt_of_le_of_lt hu.length_le hbudget)

def nestedClasses : Cursor := { unread := "[^]a-[^b-[]c]]]]d".toList }

theorem readsClass_nestedClasses :
    nestedClasses.unread = '[' :: "^]a-[^b-[]c]]]]d".toList ∧ nestedClasses.ReadsClass ∧
      readLead nestedClasses.context nestedClasses.unread =
        .ok (some ⟨.charClass "[^]a-[^b-[]c]]]".toList, "]d".toList, true⟩) := by
  have hread : nestedClasses.ReadsClass := readsClass rfl
  exact ⟨rfl, hread, (hread.scan _).2 ⟨_, _, by decide +kernel, rfl, rfl⟩⟩

end RegexAnatomy
