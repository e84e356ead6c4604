import Mathlib.Data.List.TakeWhile
import RegexAnatomy.Block.Coverage

/-! What is read, reader by reader. Each is taken apart once, into the cases in which it
hands out a token, and what all tokens have in common is shown from these cases. -/

namespace RegexAnatomy

theorem bind_eq_ok {ε α β : Type} {x : Except ε α} {f : α → Except ε β} {b : β} :
    x >>= f = .ok b ↔ ∃ a, x = .ok a ∧ f a = .ok b := by
  cases x <;> simp [bind, Except.bind]

theorem bind_eq_error {ε α β : Type} {x : Except ε α} {f : α → Except ε β} {e : ε} :
    x >>= f = .error e ↔ x = .error e ∨ ∃ a, x = .ok a ∧ f a = .error e := by
  cases x <;> simp [bind, Except.bind]

/-- A result that something is known of is there. -/
theorem toOption_map_eq_some {ε α β : Type} {x : Except ε α} {f : α → β} {b : β} :
    x.toOption.map f = some b ↔ ∃ a, x = .ok a ∧ f a = b := by
  cases x <;> simp [Except.toOption]

section Names

variable {t rest : Text} {mark close : Char} {lead : Lead}

theorem readGroupName_eq_ok {name : Text} : readGroupName t = .ok (some name, rest) ↔
    t.takeWhile isWordChar = name ∧ t.dropWhile isWordChar = rest ∧ name ≠ [] ∧
      (startsWithDigit name → isGroupNumber name) := by
  simp only [readGroupName]
  constructor
  · intro h
    split at h
    · cases h
    next hne =>
    split at h
    · cases h
    next hnumber =>
    cases h
    exact ⟨rfl, rfl, hne, by simpa using hnumber⟩
  · rintro ⟨rfl, rfl, hne, hnumber⟩
    rw [if_neg hne, if_neg (by simpa using hnumber)]

theorem readNamedOpener_eq_ok : readNamedOpener mark close t = .ok lead ↔
    ∃ capture u balance rest written, readGroupName t = .ok (capture, u) ∧
      readBalance u = .ok (balance, close :: rest) ∧
      written = capture.getD [] ++ (balance.map ('-' :: ·)).getD [] ∧ written ≠ [] ∧
      lead = ⟨.openGroup ⟨'(' :: '?' :: mark :: written ++ [close], capture, balance⟩, rest,
        false⟩ := by
  simp only [readNamedOpener, bind_eq_ok]
  constructor
  · rintro ⟨⟨capture, u⟩, hcapture, ⟨balance, rest⟩, hbalance, h⟩
    dsimp only at hbalance h
    split at h
    next c rest =>
      split at h <;> cases h
      next hclose =>
      obtain ⟨rfl, hwritten⟩ := hclose
      exact ⟨capture, u, balance, rest, _, hcapture, hbalance, rfl, hwritten, rfl⟩
    next => cases h
  · rintro ⟨capture, u, balance, rest, _, hcapture, hbalance, rfl, hwritten, rfl⟩
    exact ⟨_, hcapture, _, hbalance, if_pos ⟨rfl, hwritten⟩⟩

theorem readNamedReference_eq_ok : readNamedReference mark close t = .ok lead ↔
    ∃ name rest, readGroupName t = .ok (some name, close :: rest) ∧ lead =
      ⟨.namedReference ('\\' :: 'k' :: mark :: name ++ [close]) name, rest, true⟩ := by
  simp only [readNamedReference, bind_eq_ok]
  constructor
  · rintro ⟨⟨found, u⟩, hname, h⟩
    split at h
    next name c rest he =>
      split at h <;> cases h
      next hclose =>
      obtain ⟨rfl, rfl⟩ := Prod.mk.inj he
      exact ⟨name, rest, hclose ▸ hname, rfl⟩
    next => cases h
  · rintro ⟨name, rest, hname, rfl⟩
    exact ⟨_, hname, if_pos rfl⟩

end Names

section Constructs

variable {t : Text} {lead : Lead}

/-- Options run up to a parenthesis, which sets them, or up to a colon, which opens a group. -/
theorem readOptions_eq_ok : readOptions t = .ok lead ↔
    ∃ letters rest, (∀ c ∈ letters, isOptionChar c) ∧
      (t = letters ++ ')' :: rest ∧
          lead = ⟨.options ('(' :: '?' :: letters ++ [')']), rest, false⟩ ∨
        t = letters ++ ':' :: rest ∧
          lead = ⟨.openGroup { text := '(' :: '?' :: letters ++ [':'] }, rest, false⟩) := by
  simp only [readOptions]
  constructor
  · intro h
    have ht := List.takeWhile_append_dropWhile (p := isOptionChar) (l := t)
    split at h <;> cases h
    next rest hdrop =>
      rw [hdrop] at ht
      exact ⟨_, rest, fun _ => List.mem_takeWhile_imp, .inl ⟨ht.symm, rfl⟩⟩
    next rest hdrop =>
      rw [hdrop] at ht
      exact ⟨_, rest, fun _ => List.mem_takeWhile_imp, .inr ⟨ht.symm, rfl⟩⟩
  · rintro ⟨letters, rest, hletters, ⟨rfl, rfl⟩ | ⟨rfl, rfl⟩⟩ <;>
      simp [List.takeWhile_append_of_pos hletters, List.dropWhile_append_of_pos hletters,
        isOptionChar]

def StartsTest (t : Text) : Prop := t.head? = some '(' ∧ startsComment t = false

def groupSigns : List Text := [[':'], ['>'], ['='], ['!'], ['<', '='], ['<', '!']]

/-- Behind `(?` stand a sign or a name that opens a group, options, or the test of a
conditional. -/
inductive Lead.BehindQuestion : Text → Lead → Prop
  | sign {sign : Text} (hsign : sign ∈ groupSigns) (rest : Text) :
    BehindQuestion (sign ++ rest) ⟨.openGroup { text := '(' :: '?' :: sign }, rest, false⟩
  | angled {t : Text} {lead : Lead} (hname : ∀ c ∈ t.head?, c ≠ '=' ∧ c ≠ '!')
    (h : readNamedOpener '<' '>' t = .ok lead) : BehindQuestion ('<' :: t) lead
  | quoted {t : Text} {lead : Lead} (h : readNamedOpener '\x27' '\x27' t = .ok lead) :
    BehindQuestion ('\x27' :: t) lead
  | options {c : Char} {t : Text} {lead : Lead} (hc : isOptionChar c)
    (h : readOptions (c :: t) = .ok lead) : BehindQuestion (c :: t) lead
  | conditional {t : Text} (h : StartsTest t) : BehindQuestion t ⟨.openConditional, t, false⟩

theorem behindQuestion_of_readConstruct (h : readConstruct t = .ok lead) :
    lead.BehindQuestion t := by
  unfold readConstruct at h
  split at h
  case h_1 rest => cases h; exact .sign (show ['<', '='] ∈ groupSigns by decide) rest
  case h_2 rest => cases h; exact .sign (show ['<', '!'] ∈ groupSigns by decide) rest
  case h_3 rest hequal hbang =>
    refine .angled (fun c hc => ?_) h
    obtain ⟨more, rfl⟩ := List.head?_eq_some_iff.1 hc
    exact ⟨by rintro rfl; exact hequal _ rfl, by rintro rfl; exact hbang _ rfl⟩
  case h_4 => exact .quoted h
  case h_5 => cases h
  case h_6 rest hcomment =>
    cases h
    refine .conditional ⟨rfl, ?_⟩
    unfold startsComment
    split
    next he => cases he; exact absurd rfl (hcomment _)
    next => rfl
  case h_7 c rest _ _ _ _ _ _ =>
    split at h
    next hc =>
      cases h
      have hsign : [c] ∈ groupSigns := by
        have hc' : c = ':' ∨ c = '>' ∨ c = '=' ∨ c = '!' := by simpa using hc
        rcases hc' with rfl | rfl | rfl | rfl <;> decide
      exact .sign hsign rest
    split at h
    next hc => exact .options hc h
    next => cases h
  case h_8 => cases h

end Constructs

section Escapes

variable {free : Bool} {t : Text} {lead : Lead}

/-- Literal text is one unit that a quantifier follows, or it goes on to the end of its run. -/
theorem readLiteral_eq_ok : readLiteral free t = .ok lead ↔
    ∃ unit rest, splitUnit free t = some (unit, rest) ∧
      (quantifierFollows free rest ∧ lead = ⟨.literal unit, rest, true⟩ ∨
        quantifierFollows free rest = false ∧
          lead = ⟨.literal (unit ++ (takeUnits free (quantifierFollows free) rest).1),
            (takeUnits free (quantifierFollows free) rest).2, false⟩) := by
  unfold readLiteral
  constructor
  · intro h
    split at h
    · cases h
    next unit rest hu =>
    dsimp only at h
    split at h <;> cases h
    next hq => exact ⟨unit, rest, hu, .inl ⟨hq, rfl⟩⟩
    next hq => exact ⟨unit, rest, hu, .inr ⟨by simpa using hq, rfl⟩⟩
  · rintro ⟨unit, rest, hu, ⟨hq, rfl⟩ | ⟨hq, rfl⟩⟩
    · simp [hu, hq]
    · simp [hu, hq]

/-- What is read behind the backslash of an escape: a reference by name, a class, an anchor, a
numeric escape, the escape of a character code, or literal text. -/
inductive Lead.BehindBackslash (free : Bool) (t : Text) : Lead → Prop
  | angled (name rest : Text) : BehindBackslash free t
      ⟨.namedReference ('\\' :: 'k' :: '<' :: name ++ ['>']) name, rest, true⟩
  | quoted (name rest : Text) : BehindBackslash free t
      ⟨.namedReference ('\\' :: 'k' :: '\x27' :: name ++ ['\x27']) name, rest, true⟩
  | charClass (text rest : Text) : BehindBackslash free t ⟨.charClass text, rest, true⟩
  | anchor (text rest : Text) : BehindBackslash free t ⟨.anchor text, rest, true⟩
  | numeric {c : Char} (hc : c.isDigit) (rest : Text) :
      BehindBackslash free t (readNumericEscape free (c :: rest))
  | code {c : Char} {u arg rest : Text} (hc : c ∈ ['u', 'x', 'c'])
      (h : escapeArgument c u = some (arg, rest)) :
      BehindBackslash free t ⟨.literal ('\\' :: c :: arg), rest, true⟩
  | literal {lead : Lead} (h : readLiteral free ('\\' :: t) = .ok lead) :
      BehindBackslash free t lead

theorem behindBackslash_of_readEscape (h : readEscape free t = .ok lead) :
    lead.BehindBackslash free t := by
  unfold readEscape at h
  split at h
  case h_1 | h_4 => cases h
  case h_2 =>
    obtain ⟨name, rest, -, rfl⟩ := readNamedReference_eq_ok.1 h
    exact .angled name rest
  case h_3 =>
    obtain ⟨name, rest, -, rfl⟩ := readNamedReference_eq_ok.1 h
    exact .quoted name rest
  case h_5 c rest _ _ _ =>
    split at h
    · cases h; exact .charClass _ _
    split at h
    · cases h; exact .anchor _ _
    split at h
    next hc => cases h; exact .numeric hc rest
    split at h
    next hc =>
      split at h <;> cases h
      next arg more harg =>
      cases hp : isPropertyLetter c with
      | true => exact .charClass _ _
      | false =>
        have hletter : c ∈ ['u', 'x', 'c'] := by
          simp [isPropertyLetter] at hp
          simpa [hp] using hc
        exact .code hletter harg
    · exact .literal h

end Escapes

/-- The token at the front of a text. Literal text is read where nothing else is, unless a
quantifier stands there. -/
inductive Lead.AtFront (ctx : Context) : Text → Lead → Prop
  | construct {t : Text} {lead : Lead} (h : readConstruct t = .ok lead) :
    AtFront ctx ('(' :: '?' :: t) lead
  | paren {t : Text} (h : t.head? ≠ some '?') :
    AtFront ctx ('(' :: t) ⟨.openParen ctx.nextCapture, t, false⟩
  | close (h : ctx.insideGroup) (t : Text) : AtFront ctx (')' :: t) ⟨.close, t, true⟩
  | bar (t : Text) : AtFront ctx ('|' :: t) ⟨.bar, t, false⟩
  | anchor {c : Char} (hc : c = '^' ∨ c = '$') (t : Text) :
    AtFront ctx (c :: t) ⟨.anchor [c], t, false⟩
  | charClass {t text rest : Text} (h : readClass t = .ok (text, rest)) :
    AtFront ctx ('[' :: t) ⟨.charClass text, rest, true⟩
  | escape {t : Text} {lead : Lead} (h : readEscape ctx.mode.freeSpacing t = .ok lead) :
    AtFront ctx ('\\' :: t) lead
  | literal {t : Text} {lead : Lead} (hq : startsQuantifier t = false)
    (h : readLiteral ctx.mode.freeSpacing t = .ok lead) : AtFront ctx t lead

theorem atFront_of_readLead {ctx : Context} {t : Text} {lead : Lead}
    (h : readLead ctx t = .ok (some lead)) : lead.AtFront ctx t := by
  unfold readLead at h
  split at h
  case h_1 => cases h
  case h_2 => exact .construct (eq_ok_of_map_some h)
  case h_3 rest hquestion =>
    cases h
    refine .paren fun hc => ?_
    obtain ⟨more, rfl⟩ := List.head?_eq_some_iff.1 hc
    exact hquestion more rfl
  case h_4 rest =>
    split at h <;> cases h
    next hinside => exact .close hinside rest
  case h_5 rest => cases h; exact .bar rest
  case h_6 rest => cases h; exact .anchor (.inl rfl) rest
  case h_7 rest => cases h; exact .anchor (.inr rfl) rest
  case h_8 =>
    obtain ⟨⟨text, rest⟩, hclass, h⟩ := bind_eq_ok.1 h
    cases h
    exact .charClass hclass
  case h_9 => exact .escape (eq_ok_of_map_some h)
  case h_10 =>
    split at h
    · cases h
    next hq => exact .literal (by simpa using hq) (eq_ok_of_map_some h)

end RegexAnatomy
