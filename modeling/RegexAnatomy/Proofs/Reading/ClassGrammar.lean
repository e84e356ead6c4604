import RegexAnatomy.Proofs.Reading.Lookahead

/-! The grammar of what says itself where it ends: of an escape with an argument, and of
a character class. What is read as such is in the grammar, and what is in the grammar
is read in front of any text at all; so a class is read exactly when a text starts
with one. -/

namespace RegexAnatomy

inductive IsCodeEscape : Text → Prop
  | byte {digits : Text} (hlength : digits.length = 2) (h : ∀ d ∈ digits, isHexDigit d) :
      IsCodeEscape ('\\' :: 'x' :: digits)
  | unicode {digits : Text} (hlength : digits.length = 4) (h : ∀ d ∈ digits, isHexDigit d) :
      IsCodeEscape ('\\' :: 'u' :: digits)
  | control {c : Char} (h : isControlLetter c) : IsCodeEscape ['\\', 'c', c]

inductive IsClassEscape : Text → Prop
  /-- A property, by its name in braces. -/
  | property {c : Char} {name : Text} (hc : c = 'p' ∨ c = 'P') (hne : name ≠ [])
      (h : ∀ d ∈ name, d.isAlphanum ∨ d = '-') :
      IsClassEscape ('\\' :: c :: '\x7b' :: name ++ ['\x7d'])
  | code {text : Text} (h : IsCodeEscape text) : IsClassEscape text
  | plain {c : Char} (hc : c ∉ ['p', 'P', 'u', 'x', 'c']) : IsClassEscape ['\\', c]

/-- The parts of a class, each of which goes on to the end of the class. -/
inductive ClassPart where
  /-- All that follows the opening bracket. -/
  | body
  /-- The body without its negation. -/
  | members
  /-- The members without the closing bracket that stands first and is one of them. -/
  | items

/-- The grammar of each part. What may come first is taken whenever it is there. -/
inductive IsClassPart : ClassPart → Text → Prop
  | negated {t : Text} (h : IsClassPart .members t) : IsClassPart .body ('^' :: t)
  | positive {t : Text} (hcaret : t.head? ≠ some '^') (h : IsClassPart .members t) :
      IsClassPart .body t
  | bracket {t : Text} (h : IsClassPart .items t) : IsClassPart .members (']' :: t)
  | noBracket {t : Text} (hclose : t.head? ≠ some ']') (h : IsClassPart .items t) :
      IsClassPart .members t
  | close : IsClassPart .items [']']
  | subtraction {body : Text} (h : IsClassPart .body body) :
      IsClassPart .items ('-' :: '[' :: body ++ [']'])
  | escape {e t : Text} (he : IsClassEscape e) (h : IsClassPart .items t) :
      IsClassPart .items (e ++ t)
  | char {c : Char} {t : Text} (hclose : c ≠ ']') (hslash : c ≠ '\\')
      (hminus : c = '-' → t.head? ≠ some '[') (h : IsClassPart .items t) :
      IsClassPart .items (c :: t)

def IsClass (w : Text) : Prop := ∃ body, w = '[' :: body ∧ IsClassPart .body body

section Escapes

variable {c : Char} {t arg rest : Text}

theorem splitProperty_eq_some : splitProperty t = some (arg, rest) ↔
    (∃ name, name ≠ [] ∧ (∀ d ∈ name, d.isAlphanum ∨ d = '-') ∧
      arg = '\x7b' :: name ++ ['\x7d']) ∧ arg ++ rest = t := by
  have letters {name : Text} :
      (∀ d ∈ name, d.isAlphanum ∨ d = '-') ↔ ∀ d ∈ name, isPropertyNameChar d := by
    simp [isPropertyNameChar]
  constructor
  · intro h
    refine ⟨?_, splitProperty_append h⟩
    unfold splitProperty at h
    split at h
    next u =>
      dsimp only at h
      split at h
      next =>
        split at h
        · cases h
        next hne =>
          cases h
          exact ⟨_, hne, letters.2 fun _ => List.mem_takeWhile_imp, rfl⟩
      next => cases h
    next => cases h
  · rintro ⟨⟨name, hne, hname, rfl⟩, rfl⟩
    have hclose : ∀ d ∈ ('\x7d' :: rest).head?, isPropertyNameChar d = false := by
      simp [isPropertyNameChar]
    obtain ⟨htake, hdrop⟩ := takeWhile_append_exact (letters.1 hname) hclose
    simp [splitProperty, htake, hdrop, hne]

theorem splitHex_eq_some {count : Nat} : splitHex count t = some (arg, rest) ↔
    (arg.length = count ∧ ∀ d ∈ arg, isHexDigit d) ∧ arg ++ rest = t := by
  constructor
  · intro h
    refine ⟨?_, splitHex_append h⟩
    simp only [splitHex] at h
    split at h
    next hd =>
      cases h
      exact ⟨hd.1, List.all_eq_true.1 hd.2⟩
    next => cases h
  · rintro ⟨⟨hlength, hd⟩, rfl⟩
    have hall : arg.all isHexDigit := List.all_eq_true.2 hd
    simp only [splitHex, List.take_left' hlength, List.drop_left' hlength]
    exact if_pos ⟨hlength, hall⟩

theorem splitControl_eq_some : splitControl t = some (arg, rest) ↔
    (∃ d, isControlLetter d ∧ arg = [d]) ∧ arg ++ rest = t := by
  constructor
  · intro h
    refine ⟨?_, splitControl_append h⟩
    unfold splitControl at h
    split at h
    · split at h <;> cases h
      next hd => exact ⟨_, hd, rfl⟩
    · cases h
  · rintro ⟨⟨d, hd, rfl⟩, rfl⟩
    simp [splitControl, hd]

theorem escapeArgument_plain (hc : c ∉ ['p', 'P', 'u', 'x', 'c']) (t : Text) :
    escapeArgument c t = some ([], t) := by
  simp only [List.mem_cons, List.not_mem_nil, or_false, not_or] at hc
  obtain ⟨hp, hP, hu, hx, hcontrol⟩ := hc
  simp [escapeArgument, isPropertyLetter, hp, hP, hu, hx, hcontrol]

theorem escapeArgument_property (hc : c = 'p' ∨ c = 'P') (t : Text) :
    escapeArgument c t = splitProperty t := by
  rw [escapeArgument, if_pos (by simpa [isPropertyLetter] using hc)]

theorem isCodeEscape_of_escapeArgument (hc : c ∈ ['u', 'x', 'c'])
    (h : escapeArgument c t = some (arg, rest)) : IsCodeEscape ('\\' :: c :: arg) := by
  obtain rfl | rfl | rfl : c = 'u' ∨ c = 'x' ∨ c = 'c' := by simpa using hc
  · obtain ⟨⟨hlength, hd⟩, -⟩ := splitHex_eq_some.1 h
    exact .unicode hlength hd
  · obtain ⟨⟨hlength, hd⟩, -⟩ := splitHex_eq_some.1 h
    exact .byte hlength hd
  · obtain ⟨⟨d, hd, rfl⟩, -⟩ := splitControl_eq_some.1 h
    exact .control hd

/-- The argument of an escape is read where the grammar has one. -/
theorem escapeArgument_eq_some : escapeArgument c t = some (arg, rest) ↔
    IsClassEscape ('\\' :: c :: arg) ∧ arg ++ rest = t := by
  constructor
  · intro h
    refine ⟨?_, escapeArgument_append h⟩
    by_cases hproperty : c = 'p' ∨ c = 'P'
    · rw [escapeArgument_property hproperty] at h
      obtain ⟨⟨name, hne, hname, rfl⟩, -⟩ := splitProperty_eq_some.1 h
      exact .property hproperty hne hname
    by_cases hcode : c ∈ ['u', 'x', 'c']
    · exact .code (isCodeEscape_of_escapeArgument hcode h)
    · have hplain : c ∉ ['p', 'P', 'u', 'x', 'c'] := by
        rw [List.mem_cons, List.mem_cons, ← or_assoc, not_or]
        exact ⟨hproperty, hcode⟩
      rw [escapeArgument_plain hplain] at h
      cases h
      exact .plain hplain
  · rintro ⟨he, rfl⟩
    cases he with
    | property hc hne hname =>
      rw [escapeArgument_property hc]
      exact splitProperty_eq_some.2 ⟨⟨_, hne, hname, rfl⟩, rfl⟩
    | code hcode =>
      cases hcode with
      | byte hlength hd | unicode hlength hd => exact splitHex_eq_some.2 ⟨⟨hlength, hd⟩, rfl⟩
      | control hd => exact splitControl_eq_some.2 ⟨⟨_, hd, rfl⟩, rfl⟩
    | plain hc => exact escapeArgument_plain hc rest

theorem IsClassEscape.exists_letter {e : Text} (h : IsClassEscape e) :
    ∃ c arg, e = '\\' :: c :: arg := by
  cases h with
  | property | plain => exact ⟨_, _, rfl⟩
  | code hcode => cases hcode <;> exact ⟨_, _, rfl⟩

end Escapes

section Parts

variable {opened t w a : Text} {p : ClassPart}

theorem IsClassPart.ne_nil (h : IsClassPart p w) : w ≠ [] := by
  induction h with
  | negated | bracket | close | subtraction | char => simp
  | positive _ _ ih | noBracket _ _ ih => exact ih
  | escape _ _ ih => simp [ih]

theorem splitClassHead_again {head items : Text} (h : splitClassHead t = (head, items ++ a))
    (hne : items ≠ []) (a' : Text) :
    splitClassHead (head ++ (items ++ a')) = (head, items ++ a') := by
  cases items with
  | nil => exact absurd rfl hne
  | cons c items =>
    unfold splitClassHead at h
    split at h
    next => cases h; rfl
    next rest hne =>
      obtain ⟨rfl, rfl⟩ := Prod.mk.inj h
      have : c ≠ ']' := by rintro rfl; exact hne _ rfl
      simp [splitClassHead, this]
    next => cases h; rfl
    next h1 h2 h3 =>
      obtain ⟨rfl, rfl⟩ := Prod.mk.inj h
      have hcaret : c ≠ '^' := by rintro rfl; exact h2 _ rfl
      have hclose : c ≠ ']' := by rintro rfl; exact h3 _ rfl
      simp [splitClassHead, hcaret, hclose]

theorem readClassItems_escape {c : Char} {arg rest after more : Text}
    (h : escapeArgument c rest = some (arg, after))
    (hm : readClassItems opened after = .ok (more, a)) :
    readClassItems opened ('\\' :: c :: rest) = .ok ('\\' :: c :: arg ++ more, a) := by
  simp only [readClassItems]
  split
  next hn => rw [h] at hn; cases hn
  next hs =>
    rw [h] at hs
    cases hs
    rw [hm]

theorem readClassItems_subtraction {rest head items more : Text}
    (hh : splitClassHead rest = (head, more))
    (hm : readClassItems ('[' :: rest) more = .ok (items, ']' :: a)) :
    readClassItems opened ('-' :: '[' :: rest) = .ok ('-' :: '[' :: head ++ items ++ [']'], a) := by
  simp only [readClassItems, hh, hm]

theorem readClassItems_char {c : Char} {rest more : Text} (h1 : c ≠ ']') (h2 : c ≠ '\\')
    (h3 : ∀ u, c = '-' → rest ≠ '[' :: u) (hm : readClassItems opened rest = .ok (more, a)) :
    readClassItems opened (c :: rest) = .ok (c :: more, a) := by
  rw [readClassItems, hm]
  · exact h1
  · exact fun h => absurd h h2
  · exact fun _ _ h => absurd h h2
  · exact fun u hc hu => h3 u hc hu

theorem readClass_of_items {head items more : Text} (hh : splitClassHead t = (head, more))
    (hi : readClassItems ('[' :: t) more = .ok (items, a)) :
    readClass t = .ok ('[' :: head ++ items, a) := by
  simp only [readClass, hh, hi]

theorem head?_ne_of_forall_ne {c : Char} (h : ∀ u, t ≠ c :: u) : t.head? ≠ some c := by
  intro hhead
  obtain ⟨u, hu⟩ := List.head?_eq_some_iff.1 hhead
  exact h u hu

/-- Behind what may come first in it, a body goes on with items. -/
theorem isClassPart_of_head {head items : Text} (hs : splitClassHead t = (head, items))
    (h : IsClassPart .items items) : IsClassPart .body t := by
  unfold splitClassHead at hs
  split at hs
  next => cases hs; exact .negated (.bracket h)
  next rest hclose =>
    cases hs
    exact .negated (.noBracket (head?_ne_of_forall_ne hclose) h)
  next => cases hs; exact .positive (by simp) (.bracket h)
  next _ hcaret hclose =>
    cases hs
    exact .positive (head?_ne_of_forall_ne hcaret) (.noBracket (head?_ne_of_forall_ne hclose) h)

theorem isClassPart_of_read_head {items : Text}
    (hr : readClassItems opened (splitClassHead t).2 = .ok (items, a))
    (h : IsClassPart .items items) : IsClassPart .body ((splitClassHead t).1 ++ items) := by
  have hhead : splitClassHead t = ((splitClassHead t).1, items ++ a) := by
    rw [readClassItems_append hr]
  have hagain := splitClassHead_again hhead h.ne_nil []
  rw [List.append_nil] at hagain
  exact isClassPart_of_head hagain h

/-- Items that are read are items of the grammar. -/
theorem isClassPart_of_readClassItems (h : readClassItems opened t = .ok (w, a)) :
    IsClassPart .items w := by
  fun_induction readClassItems opened t generalizing w a with
  | case1 | case3 | case4 | case5 | case7 | case9 | case10 => cases h
  | case2 => cases h; exact .close
  | case6 opened c t arg after hesc hl more rest he ih =>
    cases h
    exact .escape (escapeArgument_eq_some.1 hesc).1 (ih he)
  | case8 opened t hl inner rest he ih =>
    cases h
    simpa using IsClassPart.subtraction (isClassPart_of_read_head he (ih he))
  | case11 opened c t h1 h2 h3 h4 more rest he ih =>
    cases h
    have happ := readClassItems_append he
    refine .char h1 ?_ ?_ (ih he)
    · rintro rfl
      cases t with
      | nil => exact h2 rfl rfl
      | cons d t => exact h3 d t rfl rfl
    · rintro rfl hhead
      obtain ⟨u, rfl⟩ := List.head?_eq_some_iff.1 hhead
      exact h4 _ rfl happ.symm

/-- What is read as a class is one. -/
theorem isClass_of_readClass (h : readClass t = .ok (w, a)) : IsClass w := by
  unfold readClass at h
  split at h
  next => cases h
  next items rest he =>
    cases h
    exact ⟨_, rfl, isClassPart_of_read_head he (isClassPart_of_readClassItems he)⟩

theorem readClassItems_of_readClass {body : Text} (h : readClass t = .ok ('[' :: body, ']' :: a)) :
    readClassItems opened ('-' :: '[' :: t) = .ok ('-' :: '[' :: body ++ [']'], a) := by
  unfold readClass at h
  split at h
  next => cases h
  next items rest he =>
    cases h
    exact readClassItems_subtraction rfl he

/-- The part is read as a whole in front of any text. Members are read behind a negation, and as a
body where there is none. -/
def IsRead : ClassPart → Text → Prop
  | .body, w => ∀ a, readClass (w ++ a) = .ok ('[' :: w, a)
  | .members, w => (∀ a, readClass ('^' :: w ++ a) = .ok ('[' :: '^' :: w, a)) ∧
      (w.head? ≠ some '^' → ∀ a, readClass (w ++ a) = .ok ('[' :: w, a))
  | .items, w => ∀ opened a, readClassItems opened (w ++ a) = .ok (w, a)

theorem IsClassPart.isRead (h : IsClassPart p w) : IsRead p w := by
  induction h with
  | negated _ ih => exact ih.1
  | positive hcaret _ ih => exact ih.2 hcaret
  | bracket _ ih =>
    exact ⟨fun a => readClass_of_items rfl (ih _ a), fun _ a => readClass_of_items rfl (ih _ a)⟩
  | @noBracket t hclose h ih =>
    obtain ⟨c, t, rfl⟩ := List.exists_cons_of_ne_nil h.ne_nil
    have hc : c ≠ ']' := fun hc => hclose (by rw [hc]; rfl)
    refine ⟨fun a => ?_, fun hcaret a => ?_⟩
    · have hs : splitClassHead ('^' :: c :: t ++ a) = (['^'], c :: t ++ a) := by
        simp [splitClassHead, hc]
      exact readClass_of_items hs (ih _ a)
    · have hd : c ≠ '^' := fun hd => hcaret (by rw [hd]; rfl)
      have hs : splitClassHead (c :: t ++ a) = ([], c :: t ++ a) := by
        simp [splitClassHead, hc, hd]
      exact readClass_of_items hs (ih _ a)
  | close => exact fun opened a => by simp [readClassItems]
  | @subtraction body _ ih =>
    intro opened a
    simpa using readClassItems_of_readClass (ih (']' :: a))
  | escape he _ ih =>
    obtain ⟨c, arg, rfl⟩ := he.exists_letter
    intro opened a
    simpa using readClassItems_escape (escapeArgument_eq_some.2 ⟨he, rfl⟩) (ih opened a)
  | @char c t hclose hslash hminus h ih =>
    obtain ⟨d, t, rfl⟩ := List.exists_cons_of_ne_nil h.ne_nil
    intro opened a
    refine readClassItems_char hclose hslash ?_ (ih opened a)
    rintro u hc hu
    exact hminus hc (by rw [(List.cons.inj hu).1]; rfl)

theorem IsClassPart.readClass (h : IsClassPart .body w) (a : Text) :
    readClass (w ++ a) = .ok ('[' :: w, a) :=
  h.isRead a

/-- A class is read exactly where one stands. -/
theorem readClass_eq_ok : readClass t = .ok (w, a) ↔ IsClass w ∧ w ++ a = '[' :: t := by
  refine ⟨fun h => ⟨isClass_of_readClass h, (readClass_append h).1⟩, ?_⟩
  rintro ⟨⟨body, rfl, hbody⟩, happ⟩
  obtain rfl : body ++ a = t := (List.cons.inj happ).2
  exact hbody.readClass a

theorem isClass_iff : IsClass w ↔ (readClass w.tail).toOption = some (w, []) := by
  constructor
  · rintro ⟨body, rfl, hbody⟩
    have hread := hbody.readClass []
    rw [List.append_nil] at hread
    simp [hread, Except.toOption]
  · intro h
    cases hread : readClass w.tail with
    | error => rw [hread] at h; cases h
    | ok read =>
      rw [hread] at h
      cases h
      exact isClass_of_readClass hread

instance (w : Text) : Decidable (IsClass w) := decidable_of_iff _ isClass_iff.symm

/-- A bracket that comes first closes nothing, behind a negation neither. -/
example : ¬ IsClass "[^]".toList ∧ IsClass "[^]-[]-]]".toList := by decide +kernel

end Parts

end RegexAnatomy
