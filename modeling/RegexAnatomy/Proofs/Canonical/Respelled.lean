import RegexAnatomy.Proofs.Canonical.Leaves

/-! The blocks of a pattern in canonical spelling are read again. No block has to be
where it was: literal text can run together. But the groups open and close where
they did, under the same options, and what is read in them is recut. -/

namespace RegexAnatomy

/-- No token of the blocks runs into what canonical spelling puts behind it, up to `rest`. -/
def staysApart (rest : Text) : List Block → Bool
  | [] => true
  | b :: bs =>
    b.token.staysApart (b.canonicalTail ++ (bs.flatMap Block.canonicalText ++ rest)) &&
      staysApart rest bs

theorem staysApart_append {rest : Text} (bs bs' : List Block) : staysApart rest (bs ++ bs') =
    (staysApart (bs'.flatMap Block.canonicalText ++ rest) bs && staysApart rest bs') := by
  induction bs with
  | nil => rfl
  | cons b bs ih => simp [staysApart, ih, Bool.and_assoc]

/-- From the one cursor to the other, the text is read like what stands there, but recut. -/
structure Respelled (g : GroupTable) (s s' : Cursor) (text stop : Text)
    (branches : List (List Node)) : Prop where
  head : text.head? = s.unread.head?
  starts : StartsToken s.mode.freeSpacing s.unread → StartsToken s.mode.freeSpacing text
  reads : ∃ again, List.Forall₂ Recut branches again ∧ Reads g s.front text again s'.front stop

theorem testGlues_eq_false (g : GroupTable) (n : Node) (h : n.isConditional = false) :
    n.testGlues g = false := by
  cases n <;> first | rfl | cases h

section Groups

variable {g : GroupTable} {f f' : Front} {t t' : Text} {lead : Lead} {first : Node}
  {branch : List Node} {branches : List (List Node)}

theorem StartsTest.shut {free : Bool} (h : StartsTest t) : Shut free t := by
  obtain ⟨hhead, hcomment⟩ := h
  obtain ⟨rest, rfl⟩ := List.head?_eq_some_iff.1 hhead
  exact shut_paren hcomment

theorem Node.IsGroup.isText_quantify {node n : Node} {s : Suffix} {ns : List Node}
    (h : node.IsGroup) (hq : quantify node s = n :: ns) : n.isText = false := by
  have hnode : node.isText = false := by cases h <;> rfl
  rcases quantify_eq_cons hq with ⟨-, rfl⟩ | ⟨-, rfl⟩ | rfl
  · unfold Node.quantified
    split
    · exact hnode
    · split <;> rfl
  · exact hnode
  · rfl

/-- At a test no text is read. -/
theorem Reads.not_text (h : Reads g f t ((first :: branch) :: branches) f' t')
    (ht : StartsTest t) : first.isText = false := by
  generalize hb : (first :: branch) :: branches = found at h
  cases h with
  | stop => cases hb
  | bar => cases hb
  | trivia hs =>
    rw [ht.shut.trivia] at hs
    cases hs
  | @leaf _ _ _ _ _ lead repetition nodes rest _ _ hl hs hc hy h =>
    have halone := readLead_standsAlone hl ht.1
    rcases hy.isLeaf (regular_block hl hs) (readLead_regular hl).notLayout with
      ⟨text, htoken⟩ | hleaf
    · rw [hy.eq_of_options htoken] at hb
      cases hb
      rfl
    · exact absurd halone hleaf.not_standsAlone
  | @group _ _ _ _ _ _ _ _ _ _ _ node repetition rest _ _ hl ho hi hn hs hc h =>
    have hgroup := Opening.isGroup_node hn
    obtain ⟨repeated, hrepeated⟩ := exists_quantify_block hs hc .close node
    rw [hrepeated] at hb
    cases hb
    exact hgroup.isText_quantify hrepeated

/-- An opener is read again in front of what starts as its inside did. -/
theorem fitsBefore_of_respelled {opening : Opening} {t₀ : Text} {again : List (List Node)}
    (hl : readLead f.context t₀ = .ok (some lead)) (ho : lead.token.opening? = some opening)
    (hhead : t.head? = lead.rest.head?)
    (hstarts : StartsToken (f.note lead.token).mode.freeSpacing lead.rest →
      StartsToken (f.note lead.token).mode.freeSpacing t)
    (h : Reads g (f.note lead.token) t again f' t') :
    lead.FitsBefore f.mode.freeSpacing t := by
  by_cases hne : opening = .conditional
  · subst hne
    have ht : lead.token = .openConditional := by
      cases ht : lead.token <;> rw [ht] at ho <;> cases ho
    have htest := startsTest_of_readLead hl ht
    simp only [Lead.FitsBefore, ht]
    exact ⟨hhead.trans htest.1, (hstarts (.of_shut htest.shut)).comment⟩
  · exact fitsBefore_of_reads ho hne h _

theorem Block.canonicalText_close {closer : Block} (h : closer.token = .close) (rest : Text) :
    closer.canonicalText ++ rest = ')' :: ((closer.kept.map Repetition.text).getD [] ++
      (triviaText closer.strays ++ rest)) := by
  simp [closer.canonicalText_token, closer.canonicalTail_kept, h, Token.text]

/-- A closing parenthesis with its tail: what is kept of the quantifier is read in its place, and
the strays are read in front of what follows. -/
theorem Cursor.next_close_again {s₂ s₃ : Cursor} {closer : Block} {scope : Scope}
    {outer : List Scope} (hn : s₂.next = .ok (some (closer, s₃))) (hclose : closer.token = .close)
    (hs : s₂.scopes = scope :: outer) (hhead : t.head? = s₃.unread.head?)
    (h : Reads g s₃.front t (branch :: branches) f' t') :
    s₃.scopes = outer ∧ s₃.front = { s₂.front with mode := scope.saved, atTest := false } ∧
      (∀ r ∈ closer.repetition, IsQuantifier r.quantifier) ∧ ∃ between,
        Recut (closer.strays.map Trivia.node ++ branch) between ∧
        Reads g s₃.front (triviaText closer.strays ++ t) (between :: branches) f' t' ∧
        splitRepetition scope.saved.freeSpacing ((closer.kept.map Repetition.text).getD [] ++
          (triviaText closer.strays ++ t)) = (closer.kept, triviaText closer.strays ++ t) ∧
        ∀ k ∈ closer.kept, k.IsCanonical := by
  obtain ⟨a, b, -, hsplit, htrivia, hscopes, hfront⟩ := Cursor.next_close hn hclose hs
  have hquantifier := isQuantifier_of_splitRepetition hsplit
  have hsplit' : Lead.splitTail scope.saved.freeSpacing ⟨.close, a, true⟩ =
      (closer.repetition, b) := hsplit
  have hrun : TriviaRun scope.saved.freeSpacing closer.strays t := strays_run hsplit' htrivia hhead
  have hmode : s₃.front.mode = scope.saved := by rw [hfront]
  have hpass : s₃.front.pass closer.strays = s₃.front := by
    rw [hfront]
    unfold Front.pass
    split <;> rfl
  rw [← hmode] at hrun
  obtain ⟨between, hbetween, hread⟩ := Reads.prepend_strays (hpass.symm ▸ h) hrun
  refine ⟨hscopes, hfront, hquantifier, between, hbetween, hread, ?_, fun k hk => ?_⟩
  · have hfollows := hread.no_quantifier.1
    rw [hmode] at hfollows
    cases hk : closer.kept with
    | none => exact splitRepetition_none hfollows
    | some k =>
      obtain ⟨r, hr, hkept⟩ := Option.bind_eq_some_iff.1 hk
      rw [hr] at hsplit
      exact (splitRepetition_kept hsplit hkept hfollows).1
  · obtain ⟨r, hr, hkept⟩ := Option.bind_eq_some_iff.1 hk
    exact (Repetition.kept_isCanonical (hquantifier r hr) hkept).1

/-- A group is read again if its inside is, and what follows it. -/
theorem Respelled.group {s s₁ s₂ s₃ s' : Cursor} {opener closer : Block} {opening : Opening}
    {level : Level} {node : Node} {inner rest stop : Text}
    (hopen : s.next = .ok (some (opener, s₁))) (ho : opener.token.opening? = some opening)
    (hinner : Respelled g s₁ s₂ inner (closer.canonicalText ++ rest) level.branches)
    (hscopes : s₂.scopes = s₁.scopes) (hn : s₂.next = .ok (some (closer, s₃)))
    (hclose : closer.token = .close) (hnode : opening.node g opener.span.start level = .ok node)
    (hunits : ∀ branch ∈ level.branches, ∀ n ∈ branch, n.IsUnit)
    (hglue : node.testGlues g = false) (hrest : Respelled g s₃ s' rest stop (branch :: branches)) :
    s₃.scopes = s.scopes ∧ Respelled g s s' (opener.canonicalText ++ inner) stop
      ((quantify node closer.suffix ++ closer.loose ++ branch) :: branches) := by
  obtain ⟨-, lead, htoken, hl, hunread, hfront, hscopes₁⟩ := Cursor.next_opening hopen ho
  have htext := (Cursor.next_regular hopen).canonicalText_eq (Token.standsAlone_of_opening ho)
  rw [← htoken] at ho htext
  obtain ⟨again, hrecut, hread⟩ := hrest.reads
  obtain _ | ⟨hbranch, hrecuts⟩ := hrecut
  obtain ⟨hscopes₃, hfront₃, hquantifier, between, hbetween, hread, hsplit, hcanonical⟩ :=
    Cursor.next_close_again hn hclose (hscopes.trans hscopes₁) hrest.head hread
  obtain ⟨inside, hinside, hreadInside⟩ := hinner.reads
  have hmode : s₁.mode.freeSpacing = (s.front.note lead.token).mode.freeSpacing :=
    congrArg (·.mode.freeSpacing) hfront
  have hstart := hinner.starts
  rw [hfront, Block.canonicalText_close hclose] at hreadInside
  rw [hunread, hmode] at hstart
  have hfits := fitsBefore_of_respelled hl ho (hunread ▸ hinner.head) hstart hreadInside
  obtain ⟨hl', -⟩ := readLead_again hl (startsToken_of_readLead hl).comment hfits
  -- what stands in the place of a test is read in that place, so it is no text
  have hfirst : opening = .conditional → ∀ first rest others,
      inside = (first :: rest) :: others → first.isText = false := by
    rintro rfl first rest others rfl
    cases ht : lead.token <;> rw [ht] at ho <;> cases ho
    simp only [Lead.FitsBefore, ht] at hfits
    exact hreadInside.not_text hfits
  obtain ⟨level', node', rfl, hnode', hrecut⟩ := Opening.node_recut hnode hinside hunits
    hreadInside.isUnit hfirst hglue
  have hstarts := startsToken_of_readLead hl'
  have hgroup := Opening.isGroup_node hnode
  have hgroup' := Opening.isGroup_node hnode'
  rw [htext]
  refine ⟨hscopes₃, ?_, fun _ => hstarts, _, .cons ?_ hrecuts, .group hstarts hl' ho hreadInside
    hnode' hsplit hcanonical (hfront₃ ▸ hread)⟩
  · obtain ⟨hcovers, hne⟩ := readLead_covers hl
    obtain ⟨c, text, hc⟩ := List.exists_cons_of_ne_nil hne
    rw [← hcovers, hc]
    rfl
  · rw [quantify_kept hquantifier, hclose, List.append_assoc]
    exact hrecut.quantify hgroup hgroup' _ ((hbranch.append_left _).trans hbetween)

end Groups

section Blocks

variable {g : GroupTable}

theorem Respelled.stop {s : Cursor} {stop : Text} (hstop : IsStop stop)
    (hhead : stop.head? = s.unread.head?) : Respelled g s s stop stop [[]] :=
  ⟨hhead, fun _ => .of_shut hstop.shut, [[]], .cons (.refl []) .nil, .stop hstop⟩

theorem Respelled.leaf {s s₁ s' : Cursor} {b : Block} {nodes branch : List Node}
    {branches : List (List Node)} {rest stop : Text} (hn : s.next = .ok (some (b, s₁)))
    (hb : b.Yields g nodes) (hapart : b.token.staysApart (b.canonicalTail ++ rest))
    (h : Respelled g s₁ s' rest stop (branch :: branches)) :
    s₁.scopes = s.scopes ∧ Respelled g s s' (b.canonicalText ++ rest) stop
      ((nodes ++ b.loose ++ branch) :: branches) := by
  obtain ⟨again, hrecut, hread⟩ := h.reads
  obtain _ | ⟨hbranch, hrecuts⟩ := hrecut
  obtain ⟨hscopes, hstarts, again', hagain, hread⟩ := Reads.prepend_block hn hb hread h.head hapart
  exact ⟨hscopes, Cursor.head_canonicalText hn _, hstarts, _,
    .cons ((hbranch.append_left _).trans hagain) hrecuts, hread⟩

theorem Respelled.bar {s s₁ s' : Cursor} {b : Block} {branches : List (List Node)}
    {rest stop : Text} (hn : s.next = .ok (some (b, s₁))) (hb : b.token = .bar)
    (h : Respelled g s₁ s' rest stop branches) :
    s₁.scopes = s.scopes ∧ Respelled g s s' (b.canonicalText ++ rest) stop ([] :: branches) := by
  obtain ⟨again, hrecut, hread⟩ := h.reads
  obtain ⟨hunread, hscopes, hfront⟩ := Cursor.next_bar hn hb
  have htext := (Cursor.next_regular hn).canonicalText_eq (by rw [hb]; trivial)
  have hhead := Cursor.head_canonicalText hn rest
  rw [hfront] at hread
  rw [htext, hb] at hhead ⊢
  exact ⟨hscopes, hhead, fun _ => .of_shut (shut_operator (by decide)), [] :: again,
    .cons (.refl []) hrecut, .bar hread⟩

/-- The blocks in canonical spelling are read as what they are put together as, recut, provided that
no token runs into what is behind it and no test of a conditional becomes the name of a group. -/
theorem Assembles.respelled {bs : List Block} {branches : List (List Node)}
    (h : Assembles g bs branches) : ∀ {s s' : Cursor} {stop : Text}, s.Cuts bs s' →
      IsStop stop → stop.head? = s'.unread.head? → staysApart stop bs →
      (∀ branch ∈ branches, ∀ n ∈ branch, n.Every (·.testGlues g = false)) →
      s'.scopes = s.scopes ∧
        Respelled g s s' (bs.flatMap Block.canonicalText ++ stop) stop branches := by
  induction h with
  | nil =>
    rintro s _ stop ⟨⟩ hstop hhead - -
    exact ⟨rfl, .stop hstop hhead⟩
  | @leaf b nodes bs branch branches hb h ih =>
    rintro s s' stop (_ | ⟨hn, hcuts⟩) hstop hhead hapart hglue
    obtain ⟨hapart, haparts⟩ := Bool.and_eq_true_iff.1 hapart
    obtain ⟨hfirst, hothers⟩ := List.forall_mem_cons.1 hglue
    obtain ⟨hscopes, hrest⟩ := ih hcuts hstop hhead haparts
      (List.forall_mem_cons.2 ⟨fun n hn => hfirst n (by simp [hn]), hothers⟩)
    obtain ⟨hscopes', hleaf⟩ := hrest.leaf hn hb hapart
    rw [List.flatMap_cons, List.append_assoc]
    exact ⟨hscopes.trans hscopes', hleaf⟩
  | @bar b bs branches hb h ih =>
    rintro s s' stop (_ | ⟨hn, hcuts⟩) hstop hhead hapart hglue
    obtain ⟨-, haparts⟩ := Bool.and_eq_true_iff.1 hapart
    obtain ⟨-, hothers⟩ := List.forall_mem_cons.1 hglue
    obtain ⟨hscopes, hrest⟩ := ih hcuts hstop hhead haparts hothers
    obtain ⟨hscopes', hbar⟩ := hrest.bar hn hb
    rw [List.flatMap_cons, List.append_assoc]
    exact ⟨hscopes.trans hscopes', hbar⟩
  | @group opener closer opening inner bs level node branch branches ho hi hclose hnode h ihi ih =>
    intro s s' stop hcuts hstop hhead hapart hglue
    obtain ⟨s₂, _ | ⟨hopen, hinner⟩, _ | ⟨hn, hcuts⟩⟩ := Cursor.Cuts.append_iff.1 hcuts
    obtain ⟨hfirst, hothers⟩ := List.forall_mem_cons.1 hglue
    have hgluenode : node.Every (·.testGlues g = false) :=
      (every_quantify (testGlues_eq_false g) closer).1 fun n hn => hfirst n (by simp [hn])
    rw [List.cons_append, staysApart, staysApart_append, staysApart, Bool.and_eq_true_iff,
      Bool.and_eq_true_iff, Bool.and_eq_true_iff, List.flatMap_cons, List.append_assoc] at hapart
    obtain ⟨-, hapart, -, haparts⟩ := hapart
    obtain ⟨hscopes₃, hrest⟩ := ih hcuts hstop hhead haparts
      (List.forall_mem_cons.2 ⟨fun n hn => hfirst n (by simp [hn]), hothers⟩)
    -- the inside goes up to the closing parenthesis
    have hhead' := Cursor.head_canonicalText hn (bs.flatMap Block.canonicalText ++ stop)
    have hstop' : IsStop (closer.canonicalText ++ (bs.flatMap Block.canonicalText ++ stop)) := by
      rw [Block.canonicalText_close hclose]
      simp [IsStop]
    obtain ⟨hscopes₂, hinside⟩ := ihi hinner hstop' hhead' hapart
      (Opening.every_branches (testGlues_eq_false g) hnode hgluenode)
    have hunits := hi.isUnit (Cursor.Cuts.regular hinner)
    obtain ⟨hscopes, hgroup⟩ := Respelled.group hopen ho hinside hscopes₂ hn hclose hnode hunits
      hgluenode.self hrest
    have htext : (opener :: inner ++ closer :: bs).flatMap Block.canonicalText ++ stop =
        opener.canonicalText ++ (inner.flatMap Block.canonicalText ++
          (closer.canonicalText ++ (bs.flatMap Block.canonicalText ++ stop))) := by simp
    rw [htext]
    exact ⟨hscopes₃.trans hscopes, hgroup⟩

end Blocks

end RegexAnatomy
