import RegexAnatomy.Proofs.Block.Regular

/-! Quantifiers in their canonical spelling, and blocks written with them. -/

namespace RegexAnatomy

/-- The quantifier in canonical spelling, with the trivia around it. The trivia before a lazy mark
stay before it, or follow the quantifier when the mark is gone. -/
def Repetition.canonicalText (r : Repetition) : Text :=
  let quantifier := canonicalRepetition r.quantifier r.lazyMark.isSome
  let items := r.lazyMark.getD []
  triviaText r.before ++
    if r.lazyMark.isSome ∧ quantifier.getLast? = some '?' then
      quantifier.dropLast ++ triviaText items ++ ['?']
    else quantifier ++ triviaText items

def Block.canonicalText (b : Block) : Text :=
  b.token.text ++ (b.repetition.map Repetition.canonicalText).getD [] ++ triviaText b.trivia

def Repetition.IsCanonical (r : Repetition) : Prop :=
  canonicalRepetition r.quantifier r.lazyMark.isSome =
    r.quantifier ++ if r.lazyMark.isSome then ['?'] else []

instance (r : Repetition) : Decidable r.IsCanonical :=
  inferInstanceAs (Decidable (canonicalRepetition r.quantifier r.lazyMark.isSome = _))

theorem Repetition.IsCanonical.text_eq {r : Repetition} (h : r.IsCanonical) :
    r.canonicalText = r.text := by
  unfold Repetition.IsCanonical at h
  simp only [Repetition.canonicalText, Repetition.text, h]
  cases r.lazyMark <;> simp [triviaText]

theorem Block.canonicalText_eq {b : Block} (h : ∀ r ∈ b.repetition, r.IsCanonical) :
    b.canonicalText = b.text := by
  unfold Block.canonicalText Block.text
  cases hr : b.repetition with
  | none => rfl
  | some r => simp [(h r hr).text_eq]

theorem Block.Regular.canonicalText_eq {b : Block} (hb : b.Regular) (ha : b.token.StandsAlone) :
    b.canonicalText = b.token.text := by
  simp [Block.canonicalText, (hb.alone ha).1, (hb.alone ha).2, triviaText]

/-- A block starts alike in both spellings. -/
theorem Cursor.head_canonicalText {s s₁ : Cursor} {b : Block}
    (hn : s.next = .ok (some (b, s₁))) (t : Text) :
    (b.canonicalText ++ t).head? = s.unread.head? := by
  have hr := Cursor.next_regular hn
  obtain ⟨htext, hne, -⟩ := Cursor.next_text hn
  rw [← htext]
  by_cases hl : b.token = .layout
  · rw [Block.canonicalText_eq (by simp [(hr.layout hl).1])]
    obtain ⟨c, text, hc⟩ := List.exists_cons_of_ne_nil hne
    simp [hc]
  · obtain ⟨c, text, hc⟩ := List.exists_cons_of_ne_nil (hr.text hl)
    simp [Block.canonicalText, Block.text, hc]

end RegexAnatomy
