import RegexAnatomy.Proofs.Reading.ClassGrammar
import RegexAnatomy.Proofs.Reading.Tail

/-! Constructs that say themselves where they end: escapes with an argument, classes,
names, group openers, option constructs. What stands behind such a construct has no
part in it, so it is read again in front of any text at all. -/

namespace RegexAnatomy

theorem escapeArgument_again {c : Char} {t arg a : Text} (h : escapeArgument c t = some (arg, a))
    (a' : Text) : escapeArgument c (arg ++ a') = some (arg, a') :=
  escapeArgument_eq_some.2 ⟨(escapeArgument_eq_some.1 h).1, rfl⟩

/-- A class is read again in front of any text. -/
theorem readClass_again {t w a : Text} (h : readClass t = .ok (w, a)) (a' : Text) :
    ∃ u, w = '[' :: u ∧ readClass (u ++ a') = .ok (w, a') := by
  obtain ⟨body, rfl, hbody⟩ := isClass_of_readClass h
  exact ⟨body, rfl, hbody.readClass a'⟩

section Names

variable {t a a' : Text}

theorem readGroupName_again {name : Option Text} (h : readGroupName t = .ok (name, a))
    (ha : ∀ c ∈ a'.head?, isWordChar c = false) :
    readGroupName (name.getD [] ++ a') = .ok (name, a') := by
  obtain ⟨h1, h2⟩ := takeWhile_again t ha
  simp only [readGroupName] at h
  split at h
  next hnil =>
    cases h
    rw [hnil] at h1
    simp only [List.nil_append] at h1
    simp [readGroupName, h1]
  next hne =>
    split at h
    · cases h
    next hnumber =>
      cases h
      simp only [readGroupName, Option.getD_some, h1, h2, if_neg hne, if_neg hnumber]

theorem readBalance_again {balance : Option Text} {c : Char} {r r' : Text}
    (h : readBalance t = .ok (balance, c :: r)) (hword : isWordChar c = false) (hc : c ≠ '-') :
    readBalance ((balance.map ('-' :: ·)).getD [] ++ c :: r') = .ok (balance, c :: r') := by
  unfold readBalance at h
  split at h
  next u =>
    split at h
    next => cases h
    next => cases h
    next name rest hn =>
      cases h
      have hhead : ∀ d ∈ (c :: r').head?, isWordChar d = false := by simpa using hword
      have hagain := readGroupName_again hn hhead
      simp only [Option.getD_some] at hagain
      simp [readBalance, hagain]
  next hne =>
    cases h
    unfold readBalance
    split
    next he => exact absurd (List.cons.inj he).1 hc
    next => rfl

theorem readNamedReference_again {mark close : Char} {lead : Lead}
    (h : readNamedReference mark close t = .ok lead) (hword : isWordChar close = false) :
    ∃ w, lead.token.text = '\\' :: 'k' :: mark :: w ∧
      ∀ a', readNamedReference mark close (w ++ a') = .ok { lead with rest := a' } := by
  obtain ⟨name, rest, hname, rfl⟩ := readNamedReference_eq_ok.1 h
  refine ⟨name ++ [close], rfl, fun a' => readNamedReference_eq_ok.2 ⟨name, a', ?_, rfl⟩⟩
  have hhead : ∀ c ∈ (close :: a').head?, isWordChar c = false := by simpa using hword
  simpa using readGroupName_again hname hhead

end Names

section Constructs

variable {t a' : Text} {lead : Lead}

theorem readNamedOpener_again {mark close : Char} (h : readNamedOpener mark close t = .ok lead)
    (hword : isWordChar close = false) (hclose : close ≠ '-') (a' : Text) :
    ∃ w, w ≠ [] ∧ lead.token.text = '(' :: '?' :: mark :: w ∧
      readNamedOpener mark close (w ++ a') = .ok { lead with rest := a' } := by
  obtain ⟨capture, u, balance, rest, _, hcapture, hbalance, rfl, hwritten, rfl⟩ :=
    readNamedOpener_eq_ok.1 h
  have hhead : ∀ c ∈ ((balance.map ('-' :: ·)).getD [] ++ close :: a').head?,
      isWordChar c = false := by
    cases balance with
    | none => simpa using hword
    | some name => simp; decide
  have hcapture' := readGroupName_again hcapture hhead
  have hbalance' : readBalance (_ ++ close :: a') = .ok (balance, close :: a') :=
    readBalance_again hbalance hword hclose
  refine ⟨capture.getD [] ++ (balance.map ('-' :: ·)).getD [] ++ [close], by simp, rfl, ?_⟩
  exact readNamedOpener_eq_ok.2
    ⟨capture, _, balance, a', _, by simpa using hcapture', hbalance', rfl, hwritten, rfl⟩

theorem readOptions_again (h : readOptions t = .ok lead) (a' : Text) :
    ∃ w, w ≠ [] ∧ lead.token.text = '(' :: '?' :: w ∧
      readOptions (w ++ a') = .ok { lead with rest := a' } := by
  obtain ⟨letters, rest, hletters, ⟨-, rfl⟩ | ⟨-, rfl⟩⟩ := readOptions_eq_ok.1 h
  · exact ⟨letters ++ [')'], by simp, rfl,
      readOptions_eq_ok.2 ⟨letters, a', hletters, .inl ⟨by simp, rfl⟩⟩⟩
  · exact ⟨letters ++ [':'], by simp, rfl,
      readOptions_eq_ok.2 ⟨letters, a', hletters, .inr ⟨by simp, rfl⟩⟩⟩

theorem readConstruct_test (h : StartsTest t) :
    readConstruct t = .ok ⟨.openConditional, t, false⟩ := by
  obtain ⟨hhead, hcomment⟩ := h
  unfold readConstruct
  split <;> simp_all [startsComment]

theorem readConstruct_named {c : Char} (h1 : c ≠ '=') (h2 : c ≠ '!') (t : Text) :
    readConstruct ('<' :: c :: t) = readNamedOpener '<' '>' (c :: t) := by
  rw [readConstruct]
  · rintro u ⟨⟩
    exact h1 rfl
  · rintro u ⟨⟩
    exact h2 rfl

theorem readConstruct_sign {sign : Text} (hsign : sign ∈ groupSigns) (t : Text) :
    readConstruct (sign ++ t) = .ok ⟨.openGroup { text := '(' :: '?' :: sign }, t, false⟩ := by
  simp only [groupSigns, List.mem_cons, List.not_mem_nil, or_false] at hsign
  rcases hsign with rfl | rfl | rfl | rfl | rfl | rfl <;> rfl

theorem readConstruct_options {c : Char} (hc : isOptionChar c) (t : Text) :
    readConstruct (c :: t) = readOptions (c :: t) := by
  have hc' : c ∈ ['+', '-', 'i', 'm', 'n', 's', 'x', 'I', 'M', 'N', 'S', 'X'] := by
    simpa [isOptionChar] using hc
  simp only [List.mem_cons, List.not_mem_nil, or_false] at hc'
  rcases hc' with rfl | rfl | rfl | rfl | rfl | rfl | rfl | rfl | rfl | rfl | rfl | rfl <;> rfl

/-- A construct is read again in front of any text, but for a conditional, which needs a test. -/
theorem readConstruct_again (h : readConstruct t = .ok lead)
    (ha : lead.token = .openConditional → StartsTest a') :
    ∃ w, lead.token.text = '(' :: '?' :: w ∧
      readConstruct (w ++ a') = .ok { lead with rest := a' } := by
  cases behindQuestion_of_readConstruct h with
  | sign hsign => exact ⟨_, rfl, readConstruct_sign hsign a'⟩
  | @angled t _ hname h =>
    obtain ⟨w, hw, htext, hagain⟩ := readNamedOpener_again h (by decide) (by decide) a'
    have hcovers := (readNamedOpener_covers h).1
    rw [htext] at hcovers
    obtain ⟨c, w, rfl⟩ := List.exists_cons_of_ne_nil hw
    have ht : t = c :: (w ++ lead.rest) := by simpa using hcovers.symm
    obtain ⟨hequal, hbang⟩ := hname c (by simp [ht])
    exact ⟨'<' :: c :: w, htext, (readConstruct_named hequal hbang _).trans hagain⟩
  | quoted h =>
    obtain ⟨w, hw, htext, hagain⟩ := readNamedOpener_again h (by decide) (by decide) a'
    exact ⟨'\x27' :: w, htext, hagain⟩
  | @options c t _ hc h =>
    obtain ⟨w, hw, htext, hagain⟩ := readOptions_again h a'
    have hcovers := (readOptions_covers h).1
    rw [htext] at hcovers
    obtain ⟨d, w, rfl⟩ := List.exists_cons_of_ne_nil hw
    obtain ⟨rfl, -⟩ : d = c ∧ w ++ lead.rest = t := by simpa using hcovers
    exact ⟨d :: w, htext, (readConstruct_options hc _).trans hagain⟩
  | conditional => exact ⟨[], rfl, readConstruct_test (ha rfl)⟩

end Constructs

end RegexAnatomy
