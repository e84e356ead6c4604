import RegexAnatomy.Proofs.Reading.Blocks

/-! Where the cutting of a pattern stops, and what stands there. A reader hands out the
text from the offending place on, and of each of them one thing is shown: its fault is
a misspelling, that text is a rear part of what was read, and it starts with what the
fault is about. A reader keeps this of the readers it calls. Where a token is to start
two more things can go wrong, a quantifier with nothing to repeat and a parenthesis
that closes nothing. The reader of literal text has one more fault, for a place without
a literal unit, and it is never called there. It is the last resort of the readers of
tokens and of escapes, so what these two read otherwise and what is no literal unit
are shown to be the same characters and the same escapes. -/

namespace RegexAnatomy

def Fault.IsMalformed : Fault → Prop
  | .malformed .. => True
  | .noLiteral _ => False

/-- What stands where a token is misspelled; `behind` is the text from there on. Whether a
parenthesis closes anything, or is ever closed, does not show in that text. -/
def Malformation.Shows (behind : Text) : Malformation → Prop
  | .danglingQuantifier c => [c] <+: behind
  | .unclosedClass => ['['] <+: behind
  | .misplacedSubtraction => behind.head? ≠ some ']'
  | .badEscape c => ['\\', c] <+: behind
  | .trailingBackslash => behind = ['\\']
  | .unclosedGroup | .unmatchedClose => False
  | .badGroupName _ => True
  | .unknownConstruct => ['(', '?'] <+: behind
  | .unclosedComment | .commentAsTest => ['(', '?', '#'] <+: behind

def Malformation.IsMisspelling : Malformation → Prop
  | .danglingQuantifier _ => False
  | _ => True

/-- Something is misspelled in the text: the fault hands out a rear part of it, and that shows
what. -/
inductive Fault.Misspells (t : Text) : Fault → Prop
  | intro {cause : Malformation} {found : Text} (hfound : found <:+ t)
      (hshows : cause.Shows found) (hcause : cause.IsMisspelling) :
    Misspells t (.malformed cause found)

theorem Fault.Misspells.mono {t u : Text} {fault : Fault} (h : fault.Misspells t)
    (htu : t <:+ u) : fault.Misspells u := by
  obtain ⟨hfound, hshows, hcause⟩ := h
  exact ⟨hfound.trans htu, hshows, hcause⟩

inductive Fault.MetAt (ctx : Context) (t : Text) : Fault → Prop
  | misspelled {fault : Fault} (h : fault.Misspells t) : MetAt ctx t fault
  | dangling {c : Char} (hquantifier : startsQuantifier t) (hc : [c] <+: t) :
    MetAt ctx t (.malformed (.danglingQuantifier c) t)
  | unmatched (hclose : [')'] <+: t) (hinside : ctx.insideGroup = false) :
    MetAt ctx t (.malformed .unmatchedClose t)

theorem Fault.MetAt.isMalformed {ctx : Context} {t : Text} {fault : Fault}
    (h : fault.MetAt ctx t) : fault.IsMalformed := by
  cases h with
  | misspelled h => cases h; trivial
  | dangling | unmatched => trivial

section Delimited

variable {free : Bool} {t opened : Text} {fault : Fault}

theorem comment_of_startsComment (h : startsComment t) : ['(', '?', '#'] <+: t := by
  unfold startsComment at h
  split at h
  · exact List.prefix_append ['(', '?', '#'] _
  · cases h

theorem readTrivia_misspells (h : readTrivia free t = .error fault) : fault.Misspells t := by
  simp only [readTrivia] at h
  split at h <;> cases h
  next hcomment =>
  exact ⟨⟨_, takeTrivia_append free t⟩, comment_of_startsComment hcomment, trivial⟩

theorem readRepetition_misspells (h : readRepetition free t = .error fault) :
    fault.Misspells t := by
  simp only [readRepetition] at h
  rcases bind_eq_error.1 h with h | ⟨⟨before, rest⟩, hbefore, h⟩
  · exact readTrivia_misspells h
  split at h
  next => cases h
  next quantifier rest' hquantifier =>
    rcases bind_eq_error.1 h with h | ⟨⟨after, rest''⟩, -, h⟩
    · have hrest : rest' <:+ rest := ⟨_, splitQuantifier_append hquantifier⟩
      exact (readTrivia_misspells h).mono (hrest.trans ⟨_, readTrivia_append hbefore⟩)
    · split at h <;> cases h

theorem readTail_misspells {lead : Lead} (h : lead.readTail free = .error fault) :
    fault.Misspells lead.rest := by
  unfold Lead.readTail at h
  split at h
  · exact readRepetition_misspells h
  · cases h

theorem splitClassHead_suffix (t : Text) : (splitClassHead t).2 <:+ t :=
  ⟨_, splitClassHead_append t⟩

/-- An inner class opens with a bracket of its own, and that is what it is said to be opened by. -/
theorem readClassItems_misspells (h : readClassItems opened t = .error fault) :
    ['['] <+: opened → t <:+ opened → fault.Misspells opened := by
  fun_induction readClassItems opened t with
  | case1 opened =>
    intro hopened ht
    cases h
    exact ⟨List.suffix_refl _, hopened, trivial⟩
  | case2 | case6 | case8 | case11 => cases h
  | case3 opened =>
    intro hopened ht
    cases h
    exact ⟨ht, rfl, trivial⟩
  | case4 opened c rest hargument =>
    intro hopened ht
    cases h
    exact ⟨ht, List.prefix_append ['\\', c] rest, trivial⟩
  | case5 opened c rest arg after hargument hlength inner he ih =>
    intro hopened ht
    cases h
    have hafter : after <:+ '\\' :: c :: rest :=
      ⟨'\\' :: c :: arg, by simp [escapeArgument_append hargument]⟩
    exact ih he hopened (hafter.trans ht)
  | case7 opened rest hlength inner he ih =>
    intro hopened ht
    cases h
    have hhead : (splitClassHead rest).2 <:+ '[' :: rest :=
      (splitClassHead_suffix rest).trans (List.suffix_cons _ _)
    have hrest : '[' :: rest <:+ opened := (List.suffix_cons _ _).trans ht
    exact (ih he (List.prefix_append ['['] rest) hhead).mono hrest
  | case9 opened rest hlength inner after hne he ih =>
    intro hopened ht
    cases h
    have hafter : after <:+ (splitClassHead rest).2 := ⟨inner, readClassItems_append he⟩
    have hrest : rest <:+ opened :=
      ((List.suffix_cons _ _).trans (List.suffix_cons _ _)).trans ht
    refine ⟨(hafter.trans (splitClassHead_suffix rest)).trans hrest, fun hclose => ?_, trivial⟩
    obtain ⟨more, hmore⟩ := List.head?_eq_some_iff.1 hclose
    exact hne more hmore
  | case10 opened c rest h1 h2 h3 h4 inner he ih =>
    intro hopened ht
    cases h
    exact ih he hopened ((List.suffix_cons _ _).trans ht)

theorem readClass_misspells (h : readClass t = .error fault) : fault.Misspells ('[' :: t) := by
  unfold readClass at h
  split at h
  next he =>
    cases h
    exact readClassItems_misspells he (List.prefix_append ['['] t)
      ((splitClassHead_suffix t).trans (List.suffix_cons _ _))
  next => cases h

theorem readGroupName_misspells (h : readGroupName t = .error fault) : fault.Misspells t := by
  simp only [readGroupName] at h
  split at h
  · cases h
  split at h <;> cases h
  exact ⟨List.suffix_refl _, trivial, trivial⟩

theorem readBalance_misspells (h : readBalance t = .error fault) : fault.Misspells t := by
  unfold readBalance at h
  split at h
  next u =>
    split at h
    next he =>
      cases h
      exact (readGroupName_misspells he).mono (List.suffix_cons _ _)
    next =>
      cases h
      exact ⟨List.suffix_cons _ _, trivial, trivial⟩
    next => cases h
  next => cases h

theorem readNamedOpener_misspells {mark close : Char}
    (h : readNamedOpener mark close t = .error fault) :
    fault.Misspells ('(' :: '?' :: mark :: t) := by
  have ht : t <:+ '(' :: '?' :: mark :: t := ⟨['(', '?', mark], rfl⟩
  simp only [readNamedOpener] at h
  rcases bind_eq_error.1 h with h | ⟨⟨capture, rest⟩, hcapture, h⟩
  · exact (readGroupName_misspells h).mono ht
  have hrest : rest <:+ t := ⟨_, readGroupName_append hcapture⟩
  rcases bind_eq_error.1 h with h | ⟨⟨balance, rest'⟩, -, h⟩
  · exact (readBalance_misspells h).mono (hrest.trans ht)
  split at h
  · split at h <;> cases h
    exact ⟨List.suffix_refl _, trivial, trivial⟩
  · cases h
    exact ⟨List.suffix_refl _, trivial, trivial⟩

theorem readOptions_misspells (h : readOptions t = .error fault) :
    fault.Misspells ('(' :: '?' :: t) := by
  simp only [readOptions] at h
  split at h <;> cases h
  exact ⟨List.suffix_refl _, List.prefix_append ['(', '?'] t, trivial⟩

theorem readConstruct_misspells (h : readConstruct t = .error fault) :
    fault.Misspells ('(' :: '?' :: t) := by
  unfold readConstruct at h
  split at h
  case h_1 | h_2 | h_6 => cases h
  case h_3 | h_4 => exact readNamedOpener_misspells h
  case h_5 rest =>
    cases h
    exact ⟨⟨['(', '?'], rfl⟩, List.prefix_append ['(', '?', '#'] rest, trivial⟩
  case h_7 c rest =>
    split at h
    · cases h
    split at h
    · exact readOptions_misspells h
    · cases h
      exact ⟨List.suffix_refl _, List.prefix_append ['(', '?'] _, trivial⟩
  case h_8 =>
    cases h
    exact ⟨List.suffix_refl _, List.prefix_refl _, trivial⟩

theorem readNamedReference_misspells {mark close : Char}
    (h : readNamedReference mark close t = .error fault) :
    fault.Misspells ('\\' :: 'k' :: mark :: t) := by
  have ht : t <:+ '\\' :: 'k' :: mark :: t := ⟨['\\', 'k', mark], rfl⟩
  have hbad : Fault.Misspells ('\\' :: 'k' :: mark :: t)
      (.malformed (.badEscape 'k') ('\\' :: 'k' :: mark :: t)) :=
    ⟨List.suffix_refl _, List.prefix_append ['\\', 'k'] _, trivial⟩
  simp only [readNamedReference] at h
  rcases bind_eq_error.1 h with h | ⟨⟨name, rest⟩, -, h⟩
  · exact (readGroupName_misspells h).mono ht
  split at h
  · split at h <;> cases h
    exact hbad
  · cases h
    exact hbad

end Delimited

section Literal

variable {free : Bool} {t : Text} {fault : Fault}

/-- Literal text is read wherever a unit of it stands. -/
theorem exists_readLiteral {unit rest : Text} (h : splitUnit free t = some (unit, rest)) :
    ∃ lead, readLiteral free t = .ok lead := by
  cases hq : quantifierFollows free rest with
  | true => exact ⟨_, readLiteral_eq_ok.2 ⟨unit, rest, h, .inl ⟨hq, rfl⟩⟩⟩
  | false => exact ⟨_, readLiteral_eq_ok.2 ⟨unit, rest, h, .inr ⟨hq, rfl⟩⟩⟩

/-- The escapes that are read as something else are those that are no units. -/
theorem readEscape_misspells (h : readEscape free t = .error fault) :
    fault.Misspells ('\\' :: t) := by
  unfold readEscape at h
  split at h
  case h_1 =>
    cases h
    exact ⟨List.suffix_refl _, rfl, trivial⟩
  case h_2 | h_3 => exact readNamedReference_misspells h
  case h_4 rest _ _ =>
    cases h
    exact ⟨List.suffix_refl _, List.prefix_append ['\\', 'k'] rest, trivial⟩
  case h_5 c rest hquoted hangled hk =>
    split at h
    · cases h
    next hclass =>
    split at h
    · cases h
    next hanchor =>
    split at h
    · cases h
    next hdigit =>
    split at h
    · split at h <;> cases h
      exact ⟨List.suffix_refl _, List.prefix_append ['\\', c] rest, trivial⟩
    next hargument =>
    have hc : isSpecialEscape c = false := by simp_all [isSpecialEscape]
    have hunit : splitUnit free ('\\' :: c :: rest) = some (['\\', c], rest) := by
      simp [splitUnit, hc]
    obtain ⟨lead, hlead⟩ := exists_readLiteral hunit
    rw [hlead] at h
    cases h

theorem not_spacing_of_startsToken {c : Char} {rest : Text} (h : StartsToken true (c :: rest)) :
    isBlank c = false ∧ c ≠ '#' := by
  refine ⟨Bool.eq_false_iff.2 fun hc => ?_, ?_⟩
  · have htrivia := h.trivia
    rw [splitTrivia_blank hc] at htrivia
    cases htrivia
  · rintro rfl
    have htrivia := h.trivia
    simp [splitTrivia, splitSpacing, isBlank] at htrivia

/-- Where no trivia stand, a character that is neither an operator nor a backslash is a unit. -/
theorem splitUnit_of_startsToken {c : Char} {rest : Text} (h : StartsToken free (c :: rest))
    (hop : isOperator c = false) (hc : c ≠ '\\') :
    splitUnit free (c :: rest) = some ([c], rest) := by
  rw [splitUnit_cons hc, if_neg (by simp [hop]), if_neg]
  cases free with
  | false => simp
  | true =>
    obtain ⟨hblank, hhash⟩ := not_spacing_of_startsToken h
    simp [hblank, hhash]

theorem isOperator_of_not_startsQuantifier {c : Char} {rest : Text}
    (h : startsQuantifier (c :: rest) = false)
    (hc : c ∉ ['(', ')', '|', '^', '$', '[']) : isOperator c = false := by
  have hplus : c ≠ '+' := by rintro rfl; cases h
  have hstar : c ≠ '*' := by rintro rfl; cases h
  have hquestion : c ≠ '?' := by rintro rfl; cases h
  simp_all [isOperator]

/-- Only the reader of tokens is asked whether a group is open. -/
theorem readLead_metAt {ctx : Context} (ht : StartsToken ctx.mode.freeSpacing t)
    (h : readLead ctx t = .error fault) : fault.MetAt ctx t := by
  have of_map {e : Except Fault Lead} (h : some <$> e = .error fault) : e = .error fault := by
    cases e <;> cases h
    rfl
  unfold readLead at h
  split at h
  case h_2 => exact .misspelled (readConstruct_misspells (of_map h))
  case h_4 rest =>
    split at h <;> cases h
    next hinside =>
    exact .unmatched (List.prefix_append [')'] rest) (by simpa using hinside)
  case h_8 =>
    rcases bind_eq_error.1 h with h | ⟨⟨text, rest⟩, -, h⟩
    · exact .misspelled (readClass_misspells h)
    · cases h
  case h_9 => exact .misspelled (readEscape_misspells (of_map h))
  case h_10 c rest hgroup hopen hclose hbar hstart hend hclass hslash =>
    split at h
    next hq =>
      cases h
      exact .dangling hq (List.prefix_append [c] rest)
    next hq =>
      have hop : isOperator c = false := by
        refine isOperator_of_not_startsQuantifier (by simpa using hq) ?_
        simp_all
      obtain ⟨lead, hlead⟩ := exists_readLiteral (splitUnit_of_startsToken ht hop (by simp_all))
      rw [hlead] at h
      cases h
  all_goals cases h

theorem Cursor.next_metAt {s : Cursor} (h : s.next = .error fault) :
    fault.MetAt s.context s.unread := by
  simp only [Cursor.next] at h
  rcases bind_eq_error.1 h with h | ⟨⟨items, rest⟩, ht, h⟩
  · exact .misspelled (readTrivia_misspells h)
  split at h
  · cases h
  next hi =>
    obtain rfl : items = [] := by simpa using hi
    rcases bind_eq_error.1 h with h | ⟨found, hl, h⟩
    · exact readLead_metAt (startsToken_iff.2 ht).1 h
    cases found with
    | none => cases h
    | some lead =>
      rcases bind_eq_error.1 h with h | ⟨⟨repetition, items, rest⟩, -, h⟩
      · exact .misspelled ((readTail_misspells h).mono ⟨_, (readLead_covers hl).1⟩)
      · cases h

end Literal

end RegexAnatomy
