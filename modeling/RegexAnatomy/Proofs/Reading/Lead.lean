import RegexAnatomy.Proofs.Reading.Delimited
import RegexAnatomy.Proofs.Reading.Tail

/-! A token is read again in front of another text. How much of the text behind it
takes part depends on the token: nothing behind a construct, but for the
parenthesis of a test; whether a question mark comes behind a plain parenthesis;
and what a look ahead sees behind all the others. -/

namespace RegexAnatomy

structure StartsToken (free : Bool) (t : Text) : Prop where
  trivia : splitTrivia free t = none
  comment : startsComment t = false

/-- What may stand behind the token in place of what stood there. -/
def Lead.FitsBefore (free : Bool) (lead : Lead) (a' : Text) : Prop :=
  match lead.token with
  | .openParen _ => a'.head? ≠ some '?'
  | .openConditional => StartsTest a'
  | .openGroup _ | .options _ => True
  | _ => Alike free lead.rest a'

theorem Lead.fitsBefore_iff {free : Bool} {lead : Lead} (h : lead.token.IsLeaf) (a' : Text) :
    lead.FitsBefore free a' ↔ Alike free lead.rest a' := by
  cases ht : lead.token <;> simp_all [Token.IsLeaf, Lead.FitsBefore]

section Literals

variable {free : Bool} {t a' : Text} {lead : Lead}

theorem readLiteral_again (h : readLiteral free t = .ok lead) (hq : startsQuantifier t = false)
    (ha : Alike free lead.rest a') :
    readLiteral free (lead.token.text ++ a') = .ok { lead with rest := a' } ∧
      Alike free t (lead.token.text ++ a') := by
  obtain ⟨unit, rest, hu, ⟨hfollows, rfl⟩ | ⟨hfollows, rfl⟩⟩ := readLiteral_eq_ok.1 h
  · have hfollows' : quantifierFollows free a' := ha.quantifierFollows_eq ▸ hfollows
    exact ⟨readLiteral_eq_ok.2 ⟨unit, a', splitUnit_again hu a', .inl ⟨hfollows', rfl⟩⟩,
      (Alike.of_unit hu hq ha).2⟩
  · obtain ⟨htake, halike⟩ := takeUnits_again (fun _ _ h => h.quantifierFollows_eq)
      (fun _ h => quantifierFollows_of_startsQuantifier h) hfollows ha
    rw [Token.text, List.append_assoc]
    refine ⟨readLiteral_eq_ok.2 ⟨unit, _, splitUnit_again hu _,
      .inr ⟨halike.quantifierFollows_eq ▸ hfollows, ?_⟩⟩, (Alike.of_unit hu hq halike).2⟩
    rw [htake]

/-- No digit comes first in front of both or of neither. -/
theorem Alike.head_not_digit {a : Text} (h : Alike free a a')
    (ha : ∀ c ∈ a.head?, c.isDigit = false) : ∀ c ∈ a'.head?, c.isDigit = false := by
  have hnil : a.takeWhile Char.isDigit = [] :=
    (takeWhile_append_exact (List.forall_mem_nil _) ha).1
  rw [h.digits.1] at hnil
  intro c hc
  cases a' with
  | nil => cases hc
  | cons d a' =>
    cases hc
    simpa [List.takeWhile_cons] using hnil

theorem readNumericEscape_again {c : Char} (hc : c.isDigit) (ht : t.head? = some c)
    (ha : Alike free (readNumericEscape free t).rest a') :
    ∃ w, (readNumericEscape free t).token.text = '\\' :: c :: w ∧
      readNumericEscape free (c :: w ++ a') = { readNumericEscape free t with rest := a' } := by
  obtain ⟨rest, rfl⟩ := List.head?_eq_some_iff.1 ht
  have hdigits : (c :: rest).takeWhile Char.isDigit = c :: rest.takeWhile Char.isDigit :=
    List.takeWhile_cons_of_pos hc
  have hdrop : (c :: rest).dropWhile Char.isDigit = rest.dropWhile Char.isDigit :=
    List.dropWhile_cons_of_pos hc
  have key {r' tail : Text} (hr : Alike free (rest.dropWhile Char.isDigit) r')
      (htail : (if startsQuantifier r' then ([], r') else takeUnits free startsQuantifier r') =
        (tail, a')) :
      readNumericEscape free (c :: rest.takeWhile Char.isDigit ++ r') =
        ⟨.numericEscape ('\\' :: c :: rest.takeWhile Char.isDigit ++ tail), a', true⟩ := by
    obtain ⟨h1, h2⟩ := takeWhile_again (c :: rest)
      (hr.head_not_digit fun _ => not_of_mem_head?_dropWhile)
    rw [hdigits] at h1 h2
    simp only [readNumericEscape, h1, h2, htail]
  by_cases hq : startsQuantifier (rest.dropWhile Char.isDigit)
  · have hrest : readNumericEscape free (c :: rest) =
        ⟨.numericEscape ('\\' :: c :: rest.takeWhile Char.isDigit ++ []),
          rest.dropWhile Char.isDigit, true⟩ := by
      simp only [readNumericEscape, hdigits, hdrop, if_pos hq]
    rw [hrest] at ha ⊢
    refine ⟨rest.takeWhile Char.isDigit, by simp [Token.text], ?_⟩
    exact key ha (if_pos (ha.startsQuantifier_eq ▸ hq))
  · have hrest : readNumericEscape free (c :: rest) =
        ⟨.numericEscape ('\\' :: c :: rest.takeWhile Char.isDigit ++
          (takeUnits free startsQuantifier (rest.dropWhile Char.isDigit)).1),
          (takeUnits free startsQuantifier (rest.dropWhile Char.isDigit)).2, true⟩ := by
      simp only [readNumericEscape, hdigits, hdrop, if_neg hq]
    rw [hrest] at ha ⊢
    obtain ⟨htake, halike⟩ := takeUnits_again (fun _ _ h => h.startsQuantifier_eq) (fun _ h => h)
      (by simpa using hq) ha
    refine ⟨rest.takeWhile Char.isDigit ++
      (takeUnits free startsQuantifier (rest.dropWhile Char.isDigit)).1, rfl, ?_⟩
    rw [← List.cons_append, List.append_assoc]
    exact key halike ((if_neg (halike.startsQuantifier_eq ▸ hq)).trans htake)

end Literals

section Tokens

variable {free : Bool} {ctx : Context} {t a a' : Text} {lead : Lead}

theorem readEscape_of_unit {c : Char} (hc : isSpecialEscape c = false) (rest : Text) :
    readEscape free (c :: rest) = readLiteral free ('\\' :: c :: rest) := by
  simp only [isSpecialEscape, Bool.or_eq_false_iff] at hc
  obtain ⟨hdigit, hletter⟩ := hc
  have hne (d : Char) (hd : d ∈ ['P', 'p', 'k', 'c', 'u', 'x', 'd', 'D', 'w', 'W', 's', 'S', 'A',
      'z', 'Z', 'G', 'b', 'B']) : c ≠ d := by
    rintro rfl
    simp [hd] at hletter
  have hk : c ≠ 'k' := hne 'k' (by decide)
  rw [readEscape.eq_def]
  split
  next he => cases he
  next he => cases he; exact absurd rfl hk
  next he => cases he; exact absurd rfl hk
  next he => cases he; exact absurd rfl hk
  next he =>
    cases he
    simp [hne, hdigit]

theorem readLead_of_unit {unit : Text} (h : splitUnit ctx.mode.freeSpacing t = some (unit, a))
    (hq : startsQuantifier t = false) :
    readLead ctx t = some <$> readLiteral ctx.mode.freeSpacing t := by
  unfold splitUnit at h
  split at h
  next => cases h
  next => cases h
  next c rest =>
    split at h
    · cases h
    next hc =>
      rw [readLead, readEscape_of_unit (by simpa using hc)]
  next c rest hne1 hne2 =>
    have hslash : c ≠ '\\' := by
      rintro rfl
      cases rest with
      | nil => exact hne1 rfl rfl
      | cons d rest => exact hne2 d rest rfl rfl
    split at h
    · cases h
    next hop =>
      have hne (d : Char) (hd : isOperator d) : c ≠ d := by
        rintro rfl
        exact hop hd
      rw [readLead.eq_def]
      split
      case h_1 he => cases he
      case h_9 he => cases he; exact absurd rfl hslash
      case h_10 he => cases he; simp [hq]
      all_goals
        next he =>
          cases he
          exact absurd rfl (hne _ rfl)

theorem exists_splitUnit_of_readLiteral (h : readLiteral free t = .ok lead) :
    ∃ unit a, splitUnit free t = some (unit, a) := by
  obtain ⟨unit, rest, hu, -⟩ := readLiteral_eq_ok.1 h
  exact ⟨unit, rest, hu⟩

theorem readLiteral_escape {c : Char} {rest : Text}
    (h : readLiteral free ('\\' :: c :: rest) = .ok lead) :
    isSpecialEscape c = false ∧ ∃ more, lead.token.text = '\\' :: c :: more := by
  obtain ⟨unit, a, hu, hlead⟩ := readLiteral_eq_ok.1 h
  have hc : isSpecialEscape c = false := by
    by_contra hc
    simp [splitUnit, hc] at hu
  simp only [splitUnit, hc, Bool.false_eq_true, if_false] at hu
  cases hu
  rcases hlead with ⟨-, rfl⟩ | ⟨-, rfl⟩
  · exact ⟨hc, [], rfl⟩
  · exact ⟨hc, _, rfl⟩

theorem alike_specialEscape {c : Char} (hc : isSpecialEscape c) (a a' : Text) :
    Alike free ('\\' :: c :: a) ('\\' :: c :: a') :=
  .shut (shut_specialEscape hc) (shut_specialEscape hc) (by simp) (by simp)

theorem readEscape_of_digit {c : Char} (hc : c.isDigit) (rest : Text) :
    readEscape free (c :: rest) = .ok (readNumericEscape free (c :: rest)) := by
  have hne (d : Char) (hd : d.isDigit = false) : c ≠ d := by
    rintro rfl
    rw [hd] at hc
    cases hc
  rw [readEscape.eq_def]
  split
  next he => cases he
  next he => cases he; exact absurd hc (by decide)
  next he => cases he; exact absurd hc (by decide)
  next he => cases he; exact absurd hc (by decide)
  next he =>
    cases he
    simp [hne, hc]

/-- What follows the backslash is read again in front of any text, unless it is a numeric escape or
literal text. -/
theorem readEscape_cases (h : readEscape free t = .ok lead) :
    (∃ w, lead.token.text = '\\' :: w ∧ ∀ a',
      readEscape free (w ++ a') = .ok { lead with rest := a' } ∧
        Alike free ('\\' :: t) ('\\' :: (w ++ a'))) ∨
    ∃ c rest, t = c :: rest ∧ (c.isDigit ∧ lead = readNumericEscape free t ∨
      isSpecialEscape c = false ∧ readLiteral free ('\\' :: t) = .ok lead) := by
  unfold readEscape at h
  split at h
  next => cases h
  next rest =>
    obtain ⟨w, htext, hagain⟩ := readNamedReference_again h (by decide)
    exact .inl ⟨'k' :: '<' :: w, htext, fun a' => ⟨hagain a', alike_specialEscape (by decide) _ _⟩⟩
  next rest =>
    obtain ⟨w, htext, hagain⟩ := readNamedReference_again h (by decide)
    exact .inl ⟨'k' :: '\x27' :: w, htext,
      fun a' => ⟨hagain a', alike_specialEscape (by decide) _ _⟩⟩
  next => cases h
  next c rest _ _ hk =>
    replace hk : c ≠ 'k' := hk
    have special {letters : List Char} (hall : letters.all isSpecialEscape)
        (hc : letters.contains c) : isSpecialEscape c :=
      List.all_eq_true.1 hall c (by simpa using hc)
    split at h
    next hc =>
      cases h
      refine .inl ⟨[c], rfl, fun a' => ⟨?_, alike_specialEscape (special (by decide) hc) _ _⟩⟩
      rw [List.singleton_append, readEscape, if_pos hc] <;> simp [hk]
    split at h
    next hc1 hc =>
      cases h
      refine .inl ⟨[c], rfl, fun a' => ⟨?_, alike_specialEscape (special (by decide) hc) _ _⟩⟩
      rw [List.singleton_append, readEscape, if_neg hc1, if_pos hc] <;> simp [hk]
    split at h
    next hc1 hc2 hc =>
      cases h
      exact .inr ⟨c, rest, rfl, .inl ⟨hc, rfl⟩⟩
    split at h
    next hc1 hc2 hc3 hc =>
      split at h
      next => cases h
      next arg rest' harg =>
        cases h
        refine .inl ⟨c :: arg, ?_, fun a' => ⟨?_, alike_specialEscape (special (by decide) hc) _ _⟩⟩
        · split <;> rfl
        · rw [List.cons_append, readEscape, if_neg hc1, if_neg hc2, if_neg hc3, if_pos hc,
            escapeArgument_again harg a'] <;> simp [hk]
    next => exact .inr ⟨c, rest, rfl, .inr ⟨(readLiteral_escape h).1, h⟩⟩

theorem readEscape_again (h : readEscape free t = .ok lead) (ha : Alike free lead.rest a') :
    ∃ w, lead.token.text = '\\' :: w ∧ readEscape free (w ++ a') = .ok { lead with rest := a' } ∧
      Alike free ('\\' :: t) ('\\' :: (w ++ a')) := by
  rcases readEscape_cases h with ⟨w, htext, hagain⟩ |
    ⟨c, rest, rfl, ⟨hc, rfl⟩ | ⟨hc, hliteral⟩⟩
  · exact ⟨w, htext, hagain a'⟩
  · obtain ⟨w, htext, hagain⟩ := readNumericEscape_again hc rfl ha
    refine ⟨c :: w, htext, ?_, alike_specialEscape (by simp [isSpecialEscape, hc]) _ _⟩
    rw [List.cons_append] at hagain ⊢
    rw [readEscape_of_digit hc, hagain]
  · obtain ⟨-, more, htext⟩ := readLiteral_escape hliteral
    obtain ⟨hagain, halike⟩ := readLiteral_again hliteral rfl ha
    rw [htext] at hagain halike
    refine ⟨c :: more, htext, ?_, halike⟩
    rw [List.cons_append, readEscape_of_unit hc]
    exact hagain

theorem startsQuantifier_of_readLead (h : readLead ctx t = .ok (some lead)) :
    startsQuantifier t = false := by
  cases atFront_of_readLead h with
  | literal hq => exact hq
  | anchor hsign => rcases hsign with rfl | rfl <;> rfl
  | _ => rfl

theorem startsComment_of_readConstruct (h : readConstruct t = .ok lead) :
    startsComment ('(' :: '?' :: t) = false := by
  cases hc : startsComment ('(' :: '?' :: t) with
  | false => rfl
  | true =>
    obtain ⟨rest, he⟩ := exists_cons_of_startsComment hc
    cases he
    cases h

theorem readLead_paren (h : t.head? ≠ some '?') :
    readLead ctx ('(' :: t) = .ok (some ⟨.openParen ctx.nextCapture, t, false⟩) := by
  rw [readLead]
  rintro u rfl
  exact h rfl

theorem startsComment_paren (h : t.head? ≠ some '?') : startsComment ('(' :: t) = false := by
  cases hc : startsComment ('(' :: t) with
  | false => rfl
  | true =>
    obtain ⟨rest, he⟩ := exists_cons_of_startsComment hc
    cases he
    exact absurd rfl h

theorem alike_paren (h : startsComment ('(' :: t) = false)
    (h' : startsComment ('(' :: a') = false) : Alike free ('(' :: t) ('(' :: a') :=
  .shut (shut_paren h) (shut_paren h') (by simp) (by simp)

theorem alike_operator {c : Char} (hc : c ∈ [')', '|', '^', '$', '[']) (a a' : Text) :
    Alike free (c :: a) (c :: a') :=
  .shut (shut_operator hc) (shut_operator hc) (by simp) (by simp)

/-- What may be at the front is what is read there. -/
theorem Lead.AtFront.readLead (h : lead.AtFront ctx t) : readLead ctx t = .ok (some lead) := by
  cases h with
  | construct h => rw [RegexAnatomy.readLead, h]; rfl
  | paren h => exact readLead_paren h
  | close h => simp [RegexAnatomy.readLead, h]
  | bar => rfl
  | anchor hc => rcases hc with rfl | rfl <;> rfl
  | charClass h => simp [RegexAnatomy.readLead, h, bind, Except.bind]
  | escape h => rw [RegexAnatomy.readLead, h]; rfl
  | literal hq h =>
    obtain ⟨unit, a, hu⟩ := exists_splitUnit_of_readLiteral h
    rw [readLead_of_unit hu hq, h]
    rfl

theorem readLead_eq_ok : readLead ctx t = .ok (some lead) ↔ lead.AtFront ctx t :=
  ⟨atFront_of_readLead, Lead.AtFront.readLead⟩

/-- A token is read again in front of a text that fits, and the text at whose front it stood looks
alike. -/
theorem readLead_again (h : readLead ctx t = .ok (some lead)) (ht : startsComment t = false)
    (ha : lead.FitsBefore ctx.mode.freeSpacing a') :
    readLead ctx (lead.token.text ++ a') = .ok (some { lead with rest := a' }) ∧
      Alike ctx.mode.freeSpacing t (lead.token.text ++ a') := by
  rw [readLead_eq_ok]
  cases atFront_of_readLead h with
  | construct h =>
    have htest : lead.token = .openConditional → StartsTest a' := by
      intro htoken
      simpa [Lead.FitsBefore, htoken] using ha
    obtain ⟨w, htext, hagain⟩ := readConstruct_again h htest
    rw [htext]
    exact ⟨.construct hagain, alike_paren ht (startsComment_of_readConstruct hagain)⟩
  | paren =>
    have ha : a'.head? ≠ some '?' := ha
    exact ⟨.paren ha, alike_paren ht (startsComment_paren ha)⟩
  | close hinside => exact ⟨.close hinside a', alike_operator (by decide) _ _⟩
  | bar => exact ⟨.bar a', alike_operator (by decide) _ _⟩
  | anchor hc =>
    exact ⟨.anchor hc a', alike_operator (by rcases hc with rfl | rfl <;> decide) _ _⟩
  | charClass hclass =>
    obtain ⟨w, rfl, hagain⟩ := readClass_again hclass a'
    exact ⟨.charClass hagain, alike_operator (by decide) _ _⟩
  | escape h =>
    obtain ⟨w, htext, hagain, halike⟩ :=
      readEscape_again h ((Lead.fitsBefore_iff (readEscape_isLeaf h) a').1 ha)
    rw [htext]
    exact ⟨.escape hagain, halike⟩
  | literal hq h =>
    obtain ⟨hagain, halike⟩ :=
      readLiteral_again h hq ((Lead.fitsBefore_iff (readLiteral_isLeaf h) a').1 ha)
    exact ⟨.literal (halike.startsQuantifier_eq ▸ hq) hagain, halike⟩

theorem Alike.startsToken (h : Alike free t a') (ht : StartsToken free t) :
    StartsToken free a' := by
  refine ⟨h.splitTrivia_eq_none_iff.1 ht.trivia, ?_⟩
  cases h with
  | shut _ h' => exact h'.comment
  | trivia h => rw [ht.trivia] at h; cases h
  | quantifier _ h' =>
    obtain ⟨c, rest, rfl, hc⟩ := exists_cons_of_startsQuantifier h'
    rcases hc with rfl | rfl | rfl | rfl <;> rfl
  | unit _ h' => exact startsComment_of_splitUnit h'

theorem readLead_close (h : readLead ctx t = .ok (some lead)) (hc : lead.token = .close) :
    t = ')' :: lead.rest ∧ lead.repeatable := by
  obtain ⟨ht, -⟩ := readLead_covers h
  rw [hc] at ht
  subst ht
  simp only [Token.text, List.singleton_append, readLead] at h
  split at h
  · have hlead := Option.some.inj (Except.ok.inj h)
    exact ⟨rfl, hlead ▸ rfl⟩
  · cases h

theorem insideGroup_of_close (h : readLead ctx t = .ok (some lead)) (hc : lead.token = .close) :
    ctx.insideGroup := by
  rw [(readLead_close h hc).1, readLead] at h
  split at h
  · assumption
  · cases h

/-- Whether a group is open matters only where one is closed. -/
theorem readLead_of_mode {ctx' : Context} (h : readLead ctx t = .ok (some lead))
    (hclose : lead.token ≠ .close) (hmode : ctx'.mode = ctx.mode)
    (hcapture : ∀ capture, lead.token = .openParen capture → ctx'.nextCapture = ctx.nextCapture) :
    readLead ctx' t = .ok (some lead) := by
  rw [readLead_eq_ok]
  cases atFront_of_readLead h with
  | construct hconstruct => exact .construct hconstruct
  | paren hquestion =>
    rw [← hcapture _ rfl]
    exact .paren hquestion
  | close => exact absurd rfl hclose
  | bar t => exact .bar t
  | anchor hc t => exact .anchor hc t
  | charClass hclass => exact .charClass hclass
  | escape hescape => exact .escape (hmode ▸ hescape)
  | literal hq hliteral => exact .literal hq (hmode ▸ hliteral)

theorem Alike.startsTest (h : Alike free t a') (ht : StartsTest t) : StartsTest a' := by
  obtain ⟨hhead, hcomment⟩ := ht
  obtain ⟨rest, rfl⟩ := List.head?_eq_some_iff.1 hhead
  have hshut : Shut free ('(' :: rest) := shut_paren hcomment
  generalize '(' :: rest = t at h hshut hhead
  cases h with
  | shut h h' hnil hopen => exact ⟨hopen.1 hhead, h'.comment⟩
  | trivia h => rw [hshut.trivia] at h; cases h
  | quantifier h => rw [hshut.quantifier] at h; cases h
  | unit h => rw [hshut.unit] at h; cases h

theorem readConstruct_cases (h : readConstruct t = .ok lead) :
    (∃ text, lead.token = .options text) ∨ (∃ opener, lead.token = .openGroup opener) ∨
      lead.token = .openConditional ∧ StartsTest lead.rest := by
  cases behindQuestion_of_readConstruct h with
  | sign => exact .inr (.inl ⟨_, rfl⟩)
  | angled _ hname | quoted hname =>
    obtain ⟨_, _, _, _, _, -, -, -, -, rfl⟩ := readNamedOpener_eq_ok.1 hname
    exact .inr (.inl ⟨_, rfl⟩)
  | options _ hoptions =>
    obtain ⟨_, _, -, ⟨-, rfl⟩ | ⟨-, rfl⟩⟩ := readOptions_eq_ok.1 hoptions
    · exact .inl ⟨_, rfl⟩
    · exact .inr (.inl ⟨_, rfl⟩)
  | conditional htest => exact .inr (.inr ⟨rfl, htest⟩)

theorem readLead_standsAlone (h : readLead ctx t = .ok (some lead))
    (ht : t.head? = some '(') : lead.token.StandsAlone := by
  obtain ⟨u, rfl⟩ := List.head?_eq_some_iff.1 ht
  by_cases hu : u.head? = some '?'
  · obtain ⟨v, rfl⟩ := List.head?_eq_some_iff.1 hu
    rcases readConstruct_cases (eq_ok_of_map_some h) with ⟨text, ht⟩ | ⟨opener, ht⟩ | ⟨ht, -⟩
    all_goals
      rw [ht]
      trivial
  · rw [readLead_paren hu] at h
    cases h
    trivial

theorem capture_of_openParen {capture : Option Nat} (h : readLead ctx t = .ok (some lead))
    (ht : lead.token = .openParen capture) : capture = ctx.nextCapture := by
  obtain ⟨htext, -⟩ := readLead_covers h
  rw [ht] at htext
  subst htext
  by_cases hu : lead.rest.head? = some '?'
  · obtain ⟨u, hu⟩ := List.head?_eq_some_iff.1 hu
    rw [hu] at h
    rcases readConstruct_cases (eq_ok_of_map_some h) with ⟨text, hc⟩ | ⟨opener, hc⟩ | ⟨hc, -⟩ <;>
      cases ht.symm.trans hc
  · rw [Token.text, List.singleton_append, readLead_paren hu] at h
    rw [← Option.some.inj (Except.ok.inj h)] at ht
    exact (Token.openParen.inj ht).symm

/-- The opener of a group is read as a construct. -/
theorem readConstruct_of_openGroup {opener : GroupOpener} (h : readLead ctx t = .ok (some lead))
    (ht : lead.token = .openGroup opener) : ∃ rest, readConstruct rest = .ok lead := by
  cases atFront_of_readLead h with
  | construct h => exact ⟨_, h⟩
  | escape h => exact absurd (readEscape_isLeaf h) (by rw [ht]; exact id)
  | literal _ h => exact absurd (readLiteral_isLeaf h) (by rw [ht]; exact id)
  | _ => cases ht

theorem startsTest_of_readLead (h : readLead ctx t = .ok (some lead))
    (ht : lead.token = .openConditional) : StartsTest lead.rest := by
  obtain ⟨htext, -⟩ := readLead_covers h
  rw [ht] at htext
  subst htext
  rcases readConstruct_cases (eq_ok_of_map_some h) with ⟨text, hc⟩ | ⟨opener, hc⟩ | ⟨-, htest⟩
  · cases ht.symm.trans hc
  · cases ht.symm.trans hc
  · exact htest

end Tokens

end RegexAnatomy
