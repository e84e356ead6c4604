import RegexAnatomy.Proofs.Reading.Lookahead

/-! The quantifier of a block apart from the trivia behind it. Those trivia belong
to the block only when nothing else takes them, so they are left to what is read
next; a quantifier is then read again in front of any text in which no further
quantifier follows. -/

namespace RegexAnatomy

def splitRepetition (free : Bool) (t : Text) : Option Repetition × Text :=
  let before := takeTrivia free t
  match splitQuantifier before.2 with
  | none => (none, t)
  | some (quantifier, rest) =>
    let after := takeTrivia free rest
    match after.2 with
    | '?' :: more => (some ⟨before.1, quantifier, some after.1⟩, more)
    | _ => (some ⟨before.1, quantifier, none⟩, rest)

section Split

variable {free : Bool} {t a a' : Text} {repetition : Option Repetition}

def TakesTrivia (free : Bool) (a : Text) (items : List Trivia) (rest : Text) : Prop :=
  (items = [] ∧ rest = a) ∨ takeTrivia free a = (items, rest)

theorem splitRepetition_none (h : quantifierFollows free t = false) :
    splitRepetition free t = (none, t) := by
  simp only [quantifierFollows, startsQuantifier, Option.isSome_eq_false_iff,
    Option.isNone_iff_eq_none] at h
  simp [splitRepetition, h]

theorem splitRepetition_nil (free : Bool) : splitRepetition free [] = (none, []) :=
  splitRepetition_none (by rw [quantifierFollows, takeTrivia_eq_nil (splitTrivia_nil free)]; rfl)

theorem splitRepetition_append (h : splitRepetition free t = (repetition, a)) :
    (repetition.map Repetition.text).getD [] ++ a = t := by
  have hb := takeTrivia_append free t
  simp only [splitRepetition] at h
  split at h
  next => cases h; rfl
  next quantifier rest hq =>
    rw [← splitQuantifier_append hq] at hb
    have ha := takeTrivia_append free rest
    split at h
    next more hm =>
      cases h
      rw [hm] at ha
      rw [← ha] at hb
      simpa [Repetition.text] using hb
    next =>
      cases h
      simpa [Repetition.text] using hb

theorem readTrivia_eq_ok {items : List Trivia} {rest : Text} :
    readTrivia free t = .ok (items, rest) ↔
      takeTrivia free t = (items, rest) ∧ startsComment rest = false := by
  simp only [readTrivia]
  constructor
  · intro h
    split at h
    · cases h
    next hc => cases h; exact ⟨rfl, by simpa using hc⟩
  · rintro ⟨ht, hc⟩
    simp [ht, hc]

/-- What is read as the tail of a block is its quantifier and perhaps the trivia behind it. -/
theorem splitRepetition_of_readRepetition {items : List Trivia} {rest : Text}
    (h : readRepetition free t = .ok (repetition, items, rest)) :
    ∃ a, splitRepetition free t = (repetition, a) ∧ TakesTrivia free a items rest := by
  simp only [readRepetition, bind_eq_ok] at h
  obtain ⟨⟨before, rest₁⟩, hb, h⟩ := h
  obtain ⟨hb, -⟩ := readTrivia_eq_ok.1 hb
  simp only [splitRepetition, hb]
  split at h
  next hq =>
    cases h
    exact ⟨t, by simp [hq], .inr hb⟩
  next quantifier rest₂ hq =>
    obtain ⟨⟨after, rest₃⟩, ha, h⟩ := bind_eq_ok.1 h
    obtain ⟨ha, -⟩ := readTrivia_eq_ok.1 ha
    split at h
    next hm =>
      cases h
      obtain rfl : rest₃ = '?' :: rest := hm
      exact ⟨rest, by simp [hq, ha], .inl ⟨rfl, rfl⟩⟩
    next hne =>
      cases h
      refine ⟨rest₂, ?_, .inr ha⟩
      rw [hq]
      dsimp only
      split
      next more hm => rw [ha] at hm; exact absurd hm (hne more)
      next => rfl

theorem readRepetition_of_split (h : splitRepetition free t = (repetition, a))
    (hc : startsComment (takeTrivia free a).2 = false) :
    ∃ items rest, readRepetition free t = .ok (repetition, items, rest) ∧
      TakesTrivia free a items rest := by
  have not_comment {t : Text} (hq : (splitQuantifier t).isSome) : startsComment t = false := by
    obtain ⟨c, rest, rfl, hc⟩ := exists_cons_of_startsQuantifier hq
    rcases hc with rfl | rfl | rfl | rfl <;> rfl
  simp only [splitRepetition] at h
  split at h
  next hq =>
    cases h
    have ht : readTrivia free t = .ok (takeTrivia free t) := readTrivia_eq_ok.2 ⟨rfl, hc⟩
    exact ⟨_, _, by simp [readRepetition, ht, hq, bind, Except.bind], .inr rfl⟩
  next quantifier rest hq =>
    have ht : readTrivia free t = .ok (takeTrivia free t) :=
      readTrivia_eq_ok.2 ⟨rfl, not_comment (by rw [hq]; rfl)⟩
    split at h
    next more hm =>
      cases h
      have hr : readTrivia free rest = .ok ((takeTrivia free rest).1, '?' :: a) :=
        readTrivia_eq_ok.2 ⟨by rw [← hm], rfl⟩
      exact ⟨[], a, by simp [readRepetition, ht, hq, hr, bind, Except.bind], .inl ⟨rfl, rfl⟩⟩
    next hne =>
      cases h
      have hr : readTrivia free a = .ok (takeTrivia free a) := readTrivia_eq_ok.2 ⟨rfl, hc⟩
      refine ⟨_, _, ?_, .inr rfl⟩
      simp only [readRepetition, ht, hq, hr, bind, Except.bind]

theorem splitBounds_again {bounds : Text} (h : splitBounds t = some (bounds, a)) (a' : Text) :
    ∃ inner, bounds = '{' :: inner ∧ splitBounds (inner ++ a') = some (bounds, a') := by
  have digits (t : Text) {c : Char} (hc : c.isDigit = false) (r : Text) :=
    takeWhile_again (p := Char.isDigit) (r := c :: r) t (by simpa using hc)
  simp only [splitBounds] at h
  split at h
  · cases h
  next hleast =>
    split at h
    · cases h
      refine ⟨_, rfl, ?_⟩
      obtain ⟨h1, h2⟩ := digits t (c := '}') rfl a'
      simp [splitBounds, h1, h2, hleast]
    · next u hu =>
      split at h
      · cases h
        refine ⟨_, rfl, ?_⟩
        obtain ⟨h1, h2⟩ := digits u (c := '}') rfl a'
        obtain ⟨h3, h4⟩ := digits t (c := ',') rfl (u.takeWhile Char.isDigit ++ '}' :: a')
        simp [splitBounds, h1, h2, h3, h4, hleast]
      · cases h
    · cases h

theorem splitQuantifier_again {quantifier : Text} (h : splitQuantifier t = some (quantifier, a))
    (a' : Text) : splitQuantifier (quantifier ++ a') = some (quantifier, a') := by
  unfold splitQuantifier at h
  split at h
  case h_4 =>
    obtain ⟨inner, rfl, hs⟩ := splitBounds_again h a'
    exact hs
  case h_5 => cases h
  all_goals cases h; rfl

theorem splitQuantifier_ne_nil {quantifier : Text} (h : splitQuantifier t = some (quantifier, a)) :
    quantifier ≠ [] := by
  unfold splitQuantifier at h
  split at h
  case h_4 =>
    obtain ⟨inner, rfl, -⟩ := splitBounds_again h a
    simp
  case h_5 => cases h
  all_goals cases h; simp

/-- Whatever stands behind it, a quantifier looks the same. -/
theorem Alike.of_splitQuantifier {quantifier : Text} (h : splitQuantifier t = some (quantifier, a))
    (a' : Text) : Alike free t (quantifier ++ a') :=
  .quantifier (by simp [startsQuantifier, h])
    (by simp [startsQuantifier, splitQuantifier_again h a'])

theorem not_question_of_quantifierFollows (h : quantifierFollows free t = false) (more : Text) :
    (takeTrivia free t).2 ≠ '?' :: more := by
  intro he
  rw [quantifierFollows, he] at h
  cases h

/-- A quantifier is read again in front of any text in which no quantifier follows, and the text
at whose front it stood looks alike. -/
theorem splitRepetition_again (h : splitRepetition free t = (repetition, a))
    (ha : quantifierFollows free a' = false) :
    splitRepetition free ((repetition.map Repetition.text).getD [] ++ a') = (repetition, a') := by
  simp only [splitRepetition] at h
  split at h
  next => cases h; exact splitRepetition_none ha
  next quantifier rest hq =>
    split at h
    next more hm =>
      cases h
      have hlazy : Alike free (takeTrivia free rest).2 ('?' :: a') := by
        rw [hm]
        exact .quantifier rfl rfl
      obtain ⟨hafter, -⟩ := takeTrivia_again hlazy
      obtain ⟨hbefore, -⟩ := takeTrivia_again (Alike.of_splitQuantifier hq
        (triviaText (takeTrivia free rest).1 ++ '?' :: a') : Alike free _ _)
      have hagain := splitQuantifier_again hq (triviaText (takeTrivia free rest).1 ++ '?' :: a')
      simp [splitRepetition, Repetition.text, hbefore, hagain, hafter]
    next =>
      cases h
      obtain ⟨hbefore, -⟩ := takeTrivia_again (Alike.of_splitQuantifier hq a' : Alike free _ _)
      have hagain := splitQuantifier_again hq a'
      simp only [splitRepetition, Repetition.text, Option.map_some, Option.getD_some,
        List.append_nil, List.append_assoc, hbefore, hagain]
      split
      next more hm => exact absurd hm (not_question_of_quantifierFollows ha more)
      next => rfl

/-- The text at whose front the quantifier stood looks alike, if the text behind it does. -/
theorem Alike.of_splitRepetition (h : splitRepetition free t = (repetition, a))
    (ha : Alike free a a') : Alike free t ((repetition.map Repetition.text).getD [] ++ a') := by
  simp only [splitRepetition] at h
  split at h
  next => cases h; exact ha
  next quantifier rest hq =>
    have hbefore (b : Text) := (takeTrivia_again (Alike.of_splitQuantifier hq b : Alike free _ _)).2
    split at h <;> cases h
    · simpa [Repetition.text] using hbefore _
    · simpa [Repetition.text] using hbefore a'

end Split

end RegexAnatomy
