import RegexAnatomy.Proofs.Canonical.Escapes

/-! A block in canonical spelling in front of a text that is read. Of a block that is
neither a parenthesis nor a bar the token is read again, with what is kept of its
quantifier behind it, and then the strays. -/

namespace RegexAnatomy

section Tokens

variable {free : Bool} {ctx : Context} {t : Text} {lead : Lead}

theorem exists_run_of_readLiteral (h : readLiteral free t = .ok lead) :
    ∃ w, lead.token = .literal w ∧ w ≠ [] ∧ UnitRun free w := by
  obtain ⟨unit, rest, hu, ⟨-, rfl⟩ | ⟨-, rfl⟩⟩ := readLiteral_eq_ok.1 h
  · refine ⟨unit, rfl, (splitUnit_append hu).2, ?_⟩
    rw [← List.append_nil unit]
    exact .cons (splitUnit_again hu []) .nil
  · exact ⟨_, rfl, by simp [(splitUnit_append hu).2],
      .cons (splitUnit_again hu _) (unitRun_takeUnits free _ rest)⟩

theorem exists_run_of_readNumericEscape {c : Char} {rest : Text} (hc : c.isDigit) :
    ∃ digits tail, (readNumericEscape free (c :: rest)).token =
        .numericEscape ('\\' :: (digits ++ tail)) ∧ digits ≠ [] ∧ (∀ d ∈ digits, d.isDigit) ∧
      UnitRun free tail ∧ ∀ d ∈ tail.head?, d.isDigit = false := by
  have hne : (c :: rest).takeWhile Char.isDigit ≠ [] := by simp [hc]
  by_cases hq : startsQuantifier ((c :: rest).dropWhile Char.isDigit)
  · refine ⟨_, [], ?_, hne, fun _ => List.mem_takeWhile_imp, .nil, by simp⟩
    simp only [readNumericEscape, if_pos hq, List.cons_append]
  · refine ⟨_, (takeUnits free startsQuantifier ((c :: rest).dropWhile Char.isDigit)).1, ?_, hne,
      fun _ => List.mem_takeWhile_imp, unitRun_takeUnits free _ _, fun d hd => ?_⟩
    · simp only [readNumericEscape, if_neg hq, List.cons_append]
    have htext := takeUnits_append free startsQuantifier ((c :: rest).dropWhile Char.isDigit)
    refine not_of_mem_head?_dropWhile (t := c :: rest) (p := Char.isDigit) ?_
    obtain ⟨more, hmore⟩ := List.head?_eq_some_iff.1 hd
    rw [← htext, hmore]
    rfl

/-- A leaf is read again in front of any text, unless it is literal text or a numeric escape. -/
theorem readLead_leaf_cases (h : readLead ctx t = .ok (some lead)) (hleaf : lead.token.IsLeaf) :
    (∀ a', readLead ctx (lead.token.text ++ a') = .ok (some { lead with rest := a' })) ∨
    readLiteral ctx.mode.freeSpacing t = .ok lead ∨
    ∃ c rest, c.isDigit ∧ lead = readNumericEscape ctx.mode.freeSpacing (c :: rest) := by
  cases atFront_of_readLead h with
  | construct hconstruct =>
    rcases readConstruct_cases hconstruct with ⟨text, ht⟩ | ⟨opener, ht⟩ | ⟨ht, -⟩ <;>
      exact absurd hleaf (by simp [ht, Token.IsLeaf])
  | paren | close | bar => exact hleaf.elim
  | anchor hc => exact .inl fun a' => (Lead.AtFront.anchor hc a').readLead
  | charClass hclass =>
    refine .inl fun a' => ?_
    obtain ⟨w, rfl, hagain⟩ := readClass_again hclass a'
    exact (Lead.AtFront.charClass hagain).readLead
  | escape hescape =>
    rcases readEscape_cases hescape with ⟨w, htext, hagain⟩ |
      ⟨c, rest, rfl, ⟨hc, he⟩ | ⟨-, hliteral⟩⟩
    · refine .inl fun a' => ?_
      rw [htext]
      exact (Lead.AtFront.escape (hagain a').1).readLead
    · exact .inr (.inr ⟨c, rest, hc, he⟩)
    · exact .inr (.inl hliteral)
  | literal _ hliteral => exact .inr (.inl hliteral)

theorem startsToken_of_readLead (h : readLead ctx t = .ok (some lead)) :
    StartsToken ctx.mode.freeSpacing t := by
  cases atFront_of_readLead h with
  | construct hconstruct => exact .of_shut (shut_paren (startsComment_of_readConstruct hconstruct))
  | paren hquestion => exact .of_shut (shut_paren (startsComment_paren hquestion))
  | close | bar | charClass => exact .of_shut (shut_operator (by decide))
  | anchor hc => exact .of_shut (shut_operator (by rcases hc with rfl | rfl <;> decide))
  | escape => exact ⟨splitTrivia_eq_none rfl rfl (by decide), rfl⟩
  | literal _ hliteral =>
    obtain ⟨unit, rest, hu⟩ := exists_splitUnit_of_readLiteral hliteral
    exact ⟨splitTrivia_of_splitUnit hu, startsComment_of_splitUnit hu⟩

end Tokens

section Leaves

variable {g : GroupTable} {f f' : Front} {t₀ t t' a : Text} {lead : Lead}
  {repetition : Option Repetition} {nodes branch : List Node} {branches : List (List Node)}

/-- With what is kept of its quantifier, a token is read in front of what is read. -/
theorem Reads.prepend_kept {k : Repetition} (h : Reads g f.settle t (branch :: branches) f' t')
    (hl : readLead f.context t₀ = .ok (some lead)) (hleaf : lead.token.IsLeaf)
    (hs : lead.splitTail f.mode.freeSpacing = (repetition, a))
    (hk : repetition.bind Repetition.kept = some k)
    (hy : (lead.token.block (some k)).Yields g nodes) :
    StartsToken f.mode.freeSpacing (lead.token.text ++ k.text ++ t) ∧
      Reads g f (lead.token.text ++ k.text ++ t) ((nodes ++ branch) :: branches) f' t' := by
  obtain ⟨r, rfl, hk⟩ := Option.bind_eq_some_iff.1 hk
  have hrepeatable : lead.repeatable := by
    by_contra hr
    rw [Lead.splitTail, if_neg hr] at hs
    cases hs
  rw [Lead.splitTail, if_pos hrepeatable] at hs
  obtain ⟨hsplit, halike⟩ := splitRepetition_kept hs hk h.no_quantifier.1
  have hcanonical := (Repetition.kept_isCanonical (isQuantifier_of_splitRepetition hs r rfl) hk).1
  obtain ⟨hread, -⟩ := readLead_again hl (startsToken_of_readLead hl).comment
    ((Lead.fitsBefore_iff hleaf _).2 halike)
  rw [List.append_assoc]
  have hnote := Front.note_leaf hleaf f
  have ht := startsToken_of_readLead hread
  have htail : Lead.splitTail (f.note lead.token).mode.freeSpacing
      { lead with rest := k.text ++ t } = (some k, t) := by
    rw [hnote, Lead.splitTail, if_pos hrepeatable]
    exact hsplit
  exact ⟨ht, .leaf ht hread htail (by simpa using hcanonical) hy (hnote ▸ h)⟩

theorem not_digit_of_startsWithDigit (h : startsWithDigit t = false) :
    ∀ c ∈ t.head?, c.isDigit = false := by
  cases t with
  | nil => simp
  | cons c t =>
    rintro _ ⟨⟩
    exact h

/-- Without a quantifier, a token is read in front of what it stays apart from. -/
theorem Reads.prepend_bare (h : Reads g f.settle t (branch :: branches) f' t')
    (hl : readLead f.context t₀ = .ok (some lead)) (hleaf : lead.token.IsLeaf)
    (hy : (lead.token.block none).Yields g nodes) (hapart : lead.token.staysApart t) :
    StartsToken f.mode.freeSpacing (lead.token.text ++ t) ∧
      ∃ again, Recut (nodes ++ branch) again ∧
        Reads g f (lead.token.text ++ t) (again :: branches) f' t' := by
  -- literal text and numeric escapes run on into what follows, no other leaf does
  rcases readLead_leaf_cases hl hleaf with hagain | hliteral | ⟨c, rest, hc, hescape⟩
  · have hread := hagain t
    have hnote := Front.note_leaf hleaf f
    have ht := startsToken_of_readLead hread
    have htail : Lead.splitTail (f.note lead.token).mode.freeSpacing { lead with rest := t } =
        (none, t) := by
      rw [hnote, Lead.splitTail]
      split
      · exact splitRepetition_none h.no_quantifier.1
      · rfl
    exact ⟨ht, _, .refl _, .leaf ht hread htail (by simp) hy (hnote ▸ h)⟩
  · obtain ⟨w, htoken, hne, hw⟩ := exists_run_of_readLiteral hliteral
    rw [htoken] at hapart hy ⊢
    rw [hy.eq_of_literal rfl]
    have hcount : gainsCount t w = false := by simpa [Token.staysApart] using hapart
    exact h.prepend_run hw hne hcount
  · obtain ⟨digits, tail, htoken, hne, hdigits, htail, hhead⟩ :=
      @exists_run_of_readNumericEscape f.mode.freeSpacing c rest hc
    replace htoken : lead.token = _ := (congrArg Lead.token hescape).trans htoken
    rw [htoken] at hapart hy ⊢
    simp only [Token.staysApart, Bool.and_eq_true, Bool.not_eq_true', List.drop_succ_cons,
      List.drop_zero] at hapart
    obtain ⟨hcount, hmore⟩ := hapart
    obtain ⟨d, digits, rfl⟩ := List.exists_cons_of_ne_nil hne
    have hends : ∀ e ∈ (tail ++ t).head?, e.isDigit = false := by
      cases tail with
      | cons => exact hhead
      | nil =>
        have hall : ((d :: digits) ++ []).all Char.isDigit := by simpa using hdigits
        rw [hall, Bool.true_and] at hmore
        exact not_digit_of_startsWithDigit hmore
    cases hy with
    | escape htext hn =>
      cases htext
      have hread := h.prepend_escape hne hdigits htail hends
        (gainsCount_digits (List.forall_mem_cons.1 hdigits).2 hcount) hn
      simpa [Token.text] using hread
    | layout htext | options htext | atom htext | reference htext => cases htext

end Leaves

section Blocks

variable {g : GroupTable} {s s₁ : Cursor} {b : Block} {f' : Front} {t t' : Text}
  {nodes branch : List Node} {branches : List (List Node)}

theorem Block.Yields.isLeaf (h : b.Yields g nodes) (hr : b.Regular) (hl : b.token ≠ .layout) :
    (∃ text, b.token = .options text) ∨ b.token.IsLeaf := by
  rcases h.cases hr with ⟨ht, -⟩ | ⟨text, ht, -⟩ | ⟨_, _, _, _, hleaf, -⟩
  · exact absurd ht hl
  · exact .inl ⟨text, ht⟩
  · exact .inr hleaf

theorem Block.Yields.eq_of_options {text : Text} (h : b.Yields g nodes)
    (ht : b.token = .options text) : nodes = [.plain text .inlineOptions] := by
  cases h with
  | options h =>
    rw [ht] at h
    cases h
    rfl
  | atom h => rw [ht] at h; cases h
  | layout h | reference h | escape h => cases ht.symm.trans h

theorem Reads.prepend_layout {items : List Trivia} {rest : Text}
    (ht : readTrivia s.mode.freeSpacing s.unread = .ok (items, rest)) (hi : items ≠ [])
    (h : Reads g s.front.settle t (branch :: branches) f' t') (hhead : t.head? = rest.head?) :
    ∃ again, Recut (items.map Trivia.node ++ branch) again ∧
      Reads g s.front (triviaText items ++ t) (again :: branches) f' t' := by
  have hpass : s.front.pass items = s.front.settle := if_neg hi
  have htakes : TakesTrivia s.mode.freeSpacing s.unread items rest :=
    .inr (readTrivia_eq_ok.1 ht).1
  exact Reads.prepend_strays (hpass ▸ h) (htakes.run.congr (by rw [hhead]; exact id))

/-- An option construct is read again in front of any text. -/
theorem Reads.prepend_options {f : Front} {t₀ text : Text} {lead : Lead}
    (hl : readLead f.context t₀ = .ok (some lead)) (ht : lead.token = .options text)
    (h : Reads g (f.note lead.token) t (branch :: branches) f' t') :
    StartsToken f.mode.freeSpacing (text ++ t) ∧
      Reads g f (text ++ t) ((.plain text .inlineOptions :: branch) :: branches) f' t' := by
  have hfits : lead.FitsBefore f.mode.freeSpacing t := by simp [Lead.FitsBefore, ht]
  obtain ⟨hread, -⟩ := readLead_again hl (startsToken_of_readLead hl).comment hfits
  have hrepeatable := (readLead_regular hl).alone (by simp [ht, Token.StandsAlone])
  rw [ht] at hread
  have hstart := startsToken_of_readLead hread
  have htail : Lead.splitTail (f.note (.options text)).mode.freeSpacing
      { lead with token := .options text, rest := t } = (none, t) := by
    rw [Lead.splitTail, hrepeatable]
    rfl
  exact ⟨hstart, .leaf hstart hread htail (by simp) (.options rfl) (ht ▸ h)⟩

theorem strays_run {free : Bool} {lead : Lead} {repetition : Option Repetition}
    {items : List Trivia} {a rest : Text} (hs : lead.splitTail free = (repetition, a))
    (ht : TakesTrivia free a items rest) (hhead : t.head? = rest.head?) :
    TriviaRun free ((repetition.map Repetition.strays).getD [] ++ items) t := by
  refine .append ?_ (ht.run.congr (by rw [hhead]; exact id))
  cases repetition with
  | none => trivial
  | some r =>
    rw [Lead.splitTail] at hs
    split at hs
    · exact strays_of_splitRepetition hs _ r rfl
    · cases hs

theorem Reads.prepend_leaf {f : Front} {t₀ a rest : Text} {lead : Lead}
    (hl : readLead f.context t₀ = .ok (some lead)) (hleaf : lead.token.IsLeaf)
    (hs : lead.splitTail f.mode.freeSpacing = (b.repetition, a))
    (ht : TakesTrivia f.mode.freeSpacing a b.trivia rest) (htoken : b.token = lead.token)
    (hr : b.Regular) (hy : b.Yields g nodes)
    (h : Reads g f.settle t (branch :: branches) f' t') (hhead : t.head? = rest.head?)
    (hapart : b.token.staysApart (b.canonicalTail ++ t)) :
    StartsToken f.mode.freeSpacing (b.canonicalText ++ t) ∧
      ∃ again, Recut (nodes ++ b.loose ++ branch) again ∧
        Reads g f (b.canonicalText ++ t) (again :: branches) f' t' := by
  have hquantifier : ∀ r ∈ b.repetition, IsQuantifier r.quantifier := by
    rw [Lead.splitTail] at hs
    split at hs
    · exact isQuantifier_of_splitRepetition hs
    · simp [← (Prod.mk.inj hs).1]
  obtain ⟨nodes', hy', hnodes⟩ := hy.kept hr hquantifier
  have hrun : TriviaRun f.settle.mode.freeSpacing b.strays t := strays_run hs ht hhead
  have hpass : f.settle.pass b.strays = f.settle := Front.settle_pass _ f
  rw [← hpass] at h
  obtain ⟨between, hbetween, hread⟩ := Reads.prepend_strays h hrun
  have hrecut := hbetween.append_left nodes'
  rw [b.canonicalTail_kept] at hapart
  rw [hnodes, List.append_assoc, b.canonicalText_token, b.canonicalTail_kept, htoken]
  rw [htoken] at hapart hy'
  cases hk : b.kept with
  | some k =>
    rw [hk] at hy'
    obtain ⟨hstart, hread⟩ := hread.prepend_kept hl hleaf hs hk hy'
    exact ⟨by simpa using hstart, _, hrecut, by simpa using hread⟩
  | none =>
    rw [hk] at hy' hapart
    obtain ⟨hstart, again, hagain, hread⟩ :=
      hread.prepend_bare hl hleaf hy' (by simpa using hapart)
    exact ⟨by simpa using hstart, again, hrecut.trans hagain, by simpa using hread⟩

theorem Reads.prepend_block (hn : s.next = .ok (some (b, s₁))) (hy : b.Yields g nodes)
    (h : Reads g s₁.front t (branch :: branches) f' t') (hhead : t.head? = s₁.unread.head?)
    (hapart : b.token.staysApart (b.canonicalTail ++ t)) :
    s₁.scopes = s.scopes ∧
      (StartsToken s.mode.freeSpacing s.unread →
        StartsToken s.mode.freeSpacing (b.canonicalText ++ t)) ∧
      ∃ again, Recut (nodes ++ b.loose ++ branch) again ∧
        Reads g s.front (b.canonicalText ++ t) (again :: branches) f' t' := by
  have hr := Cursor.next_regular hn
  have hne := hy.token_ne
  rcases Cursor.next_cases hn with ⟨items, rest, ht, hi, rfl, rfl⟩ |
    ⟨-, lead, repetition, items, rest, hl, htail, rfl, rfl⟩
  · obtain rfl : nodes = [] := by
      cases hy with
      | layout => rfl
      | atom h => cases h
      | options h | reference h | escape h => cases h
    refine ⟨rfl, fun hstart => ?_, Reads.prepend_layout ht hi h hhead⟩
    rw [(startsToken_iff.1 ⟨hstart, rfl⟩)] at ht
    exact absurd (Prod.mk.inj (Except.ok.inj ht)).1.symm hi
  · dsimp only at hne
    have hfront := Cursor.front_note lead.token s hne.2
    replace h : Reads g (s.front.note lead.token) t (branch :: branches) f' t' := hfront ▸ h
    have hl := (Cursor.readLead_front hne.2).1 hl
    refine ⟨Cursor.note_scopes hne.1 hne.2 s, ?_⟩
    rcases hy.isLeaf hr (readLead_regular hl).notLayout with ⟨text, ht⟩ | hleaf
    · have hloose := hr.loose_eq (by rw [ht]; trivial)
      have htext := hr.canonicalText_eq (by rw [ht]; trivial)
      have hnodes : nodes = [.plain text .inlineOptions] := hy.eq_of_options ht
      rw [hloose, htext, ht, hnodes]
      obtain ⟨hstart, hread⟩ := Reads.prepend_options hl ht h
      exact ⟨fun _ => hstart, _, .refl _, hread⟩
    · obtain ⟨a, hs, htrivia⟩ := Lead.splitTail_of_readTail htail
      have hnote := Front.note_leaf hleaf s.front
      have hmode : (s.note lead.token).mode = s.mode :=
        (congrArg Front.mode hfront).trans (congrArg Front.mode hnote)
      rw [hmode] at hs htrivia
      rw [hnote] at h
      obtain ⟨hstart, hread⟩ :=
        Reads.prepend_leaf (b := ⟨lead.token, _, repetition, items⟩) hl hleaf hs htrivia rfl hr hy h
          hhead hapart
      exact ⟨fun _ => hstart, hread⟩

end Blocks

end RegexAnatomy
