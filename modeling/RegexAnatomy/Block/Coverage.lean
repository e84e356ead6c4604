import RegexAnatomy.Block.Lead

/-! Every token is read off the front of the text: its own text is not empty,
and with the rest behind it gives the text back. -/

namespace RegexAnatomy

def Lead.Covers (lead : Lead) (t : Text) : Prop :=
  lead.token.text ++ lead.rest = t ∧ lead.token.text ≠ []

theorem readBalance_append {t rest : Text} {name : Option Text}
    (h : readBalance t = .ok (name, rest)) : (name.map ('-' :: ·)).getD [] ++ rest = t := by
  unfold readBalance at h
  split at h
  next u =>
    split at h
    next => cases h
    next => cases h
    next hn =>
      simp only [Except.ok.injEq, Prod.mk.injEq] at h; obtain ⟨rfl, rfl⟩ := h
      simpa using readGroupName_append hn
  next => simp at h; simp [← h.1, ← h.2]

theorem readNamedOpener_covers {mark close : Char} {t : Text} {lead : Lead}
    (h : readNamedOpener mark close t = .ok lead) : lead.Covers ('(' :: '?' :: mark :: t) := by
  unfold readNamedOpener at h
  match hc : readGroupName t with
  | .error _ => rw [hc] at h; cases h
  | .ok (capture, u) =>
    match hb : readBalance u with
    | .error _ => simp [hc, hb, bind, Except.bind] at h
    | .ok (balance, rest) =>
      simp only [hc, hb, bind, Except.bind] at h
      have hc := readGroupName_append hc
      have hb := readBalance_append hb
      split at h
      next =>
        split at h
        next hw =>
          simp only [Except.ok.injEq] at h; subst h
          obtain ⟨rfl, -⟩ := hw
          rw [← hc, ← hb]; simp [Lead.Covers, Token.text]
        next => cases h
      next => cases h

theorem readOptions_covers {t : Text} {lead : Lead} (h : readOptions t = .ok lead) :
    lead.Covers ('(' :: '?' :: t) := by
  have ht := List.takeWhile_append_dropWhile (p := isOptionChar) (l := t)
  simp only [readOptions] at h
  split at h
  next hr =>
    rw [hr] at ht; simp only [Except.ok.injEq] at h; subst h
    simp [Lead.Covers, Token.text, ht]
  next hr =>
    rw [hr] at ht; simp only [Except.ok.injEq] at h; subst h
    simp [Lead.Covers, Token.text, ht]
  next => cases h

theorem readConstruct_covers {t : Text} {lead : Lead} (h : readConstruct t = .ok lead) :
    lead.Covers ('(' :: '?' :: t) := by
  unfold readConstruct at h
  split at h
  case h_3 => exact readNamedOpener_covers h
  case h_4 => exact readNamedOpener_covers h
  case h_5 => cases h
  case h_7 =>
    split at h
    · simp only [Except.ok.injEq] at h; subst h; simp [Lead.Covers, Token.text]
    split at h
    · exact readOptions_covers h
    · cases h
  case h_8 => cases h
  all_goals simp only [Except.ok.injEq] at h; subst h; simp [Lead.Covers, Token.text]

theorem readLiteral_covers {free : Bool} {t : Text} {lead : Lead}
    (h : readLiteral free t = .ok lead) : lead.Covers t := by
  unfold readLiteral at h
  split at h
  next => cases h
  next unit rest hu =>
    obtain ⟨rfl, hne⟩ := splitUnit_append hu
    split at h
    · simp only [Except.ok.injEq] at h; subst h; exact ⟨rfl, hne⟩
    · have hm := takeUnits_append free (quantifierFollows free) rest
      simp only [Except.ok.injEq] at h; subst h
      exact ⟨by simp [Token.text, hm], by simp [Token.text, hne]⟩

theorem readNumericEscape_covers (free : Bool) (t : Text) :
    (readNumericEscape free t).Covers ('\\' :: t) := by
  have ht := List.takeWhile_append_dropWhile (p := Char.isDigit) (l := t)
  have hm := takeUnits_append free startsQuantifier (t.dropWhile Char.isDigit)
  unfold readNumericEscape
  dsimp only
  split <;> simp [Lead.Covers, Token.text, ht, hm]

theorem readNamedReference_covers {mark close : Char} {t : Text} {lead : Lead}
    (h : readNamedReference mark close t = .ok lead) :
    lead.Covers ('\\' :: 'k' :: mark :: t) := by
  unfold readNamedReference at h
  match hn : readGroupName t with
  | .error _ => rw [hn] at h; cases h
  | .ok (name, rest) =>
    rw [hn] at h
    have hn := readGroupName_append hn
    simp only [bind, Except.bind] at h
    split at h
    next he =>
      simp only [Prod.mk.injEq] at he; obtain ⟨rfl, rfl⟩ := he
      split at h
      next hc =>
        subst hc; simp only [Except.ok.injEq] at h; subst h
        simp [Lead.Covers, Token.text, ← hn]
      next => cases h
    next => cases h

theorem readEscape_covers {free : Bool} {t : Text} {lead : Lead}
    (h : readEscape free t = .ok lead) : lead.Covers ('\\' :: t) := by
  unfold readEscape at h
  split at h
  next => cases h
  next => exact readNamedReference_covers h
  next => exact readNamedReference_covers h
  next => cases h
  next c rest _ _ _ =>
    split at h
    · simp only [Except.ok.injEq] at h; subst h; simp [Lead.Covers, Token.text]
    split at h
    · simp only [Except.ok.injEq] at h; subst h; simp [Lead.Covers, Token.text]
    split at h
    · simp only [Except.ok.injEq] at h; subst h; exact readNumericEscape_covers free _
    split at h
    · split at h
      next => cases h
      next arg rest' ha =>
        simp only [Except.ok.injEq] at h; subst h
        have ha := escapeArgument_append ha
        cases isPropertyLetter c <;> simp [Lead.Covers, Token.text, ha]
    · exact readLiteral_covers h

theorem eq_ok_of_map_some {e : Except Fault Lead} {lead : Lead}
    (h : some <$> e = .ok (some lead)) : e = .ok lead := by
  cases e <;> cases h; rfl

theorem readLead_covers {ctx : Context} {t : Text} {lead : Lead}
    (h : readLead ctx t = .ok (some lead)) : lead.Covers t := by
  unfold readLead at h
  split at h
  case h_1 => cases h
  case h_2 => exact readConstruct_covers (eq_ok_of_map_some h)
  case h_4 =>
    split at h
    · cases h; simp [Lead.Covers, Token.text]
    · cases h
  case h_8 rest =>
    match hr : readClass rest with
    | .error _ => rw [hr] at h; cases h
    | .ok (text, rest') =>
      rw [hr] at h; cases h
      have hr := readClass_append hr
      exact hr
  case h_9 => exact readEscape_covers (eq_ok_of_map_some h)
  case h_10 =>
    split at h
    · cases h
    · exact readLiteral_covers (eq_ok_of_map_some h)
  all_goals cases h; simp [Lead.Covers, Token.text]

end RegexAnatomy
