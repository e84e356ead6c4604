import RegexAnatomy.Proofs.Assembly.Frames
import RegexAnatomy.Proofs.Block.Faults
import RegexAnatomy.Proofs.Block.Partition
import RegexAnatomy.Proofs.Options.Replay

/-! Two stacks in step. A pattern is cut up with a stack of open scopes, and its tree
is built with a stack of enclosures, each by a reader that knows nothing of the
other; what the two share are the blocks. Both stacks are shown to hold the openers
that the blocks leave open, so the blocks of a pattern are well nested and the
building never closes what is not open, nor a conditional without its test. -/

namespace RegexAnatomy

/-- Only what is open is closed, everything is closed in the end, and behind the opener of a
conditional stands what can be a test. -/
structure WellNested (bs : List Block) : Prop where
  close : ∀ before b after, bs = before ++ b :: after → b.token = .close → openers before ≠ []
  complete : openers bs = []
  test : ∀ before b after, bs = before ++ b :: after → b.token = .openConditional →
    ∃ c ∈ after.head?, c.token.CanTest

section Tests

variable {bs : List Block}

def TestsFollow (bs : List Block) : Prop :=
  ∀ before b c after, bs = before ++ b :: c :: after → b.token = .openConditional → c.token.CanTest

theorem TestsFollow.mono {cs : List Block} (h : TestsFollow bs) (hi : cs <:+: bs) :
    TestsFollow cs := by
  obtain ⟨s, t, rfl⟩ := hi
  rintro before b c after rfl hb
  exact h (s ++ before) b c (after ++ t) (by simp) hb

theorem WellNested.testsFollow (h : WellNested bs) : TestsFollow bs := by
  intro before b c after hsplit hb
  obtain ⟨d, hd, ht⟩ := h.test before b (c :: after) hsplit hb
  cases hd
  exact ht

/-- The inside of a conditional starts with what can be a test. -/
theorem TestsFollow.exists_canTest {opener closer : Block} {inner : List Block}
    (h : TestsFollow (opener :: inner ++ [closer])) (ho : opener.token = .openConditional)
    (hc : closer.token = .close) : ∃ c ∈ inner.head?, c.token.CanTest := by
  cases inner with
  | nil =>
    have hclose := h [] opener closer [] rfl ho
    rw [hc] at hclose
    exact hclose.elim
  | cons c inner => exact ⟨c, rfl, h [] opener c (inner ++ [closer]) (by simp) ho⟩

end Tests

section Scopes

variable {s s₁ s₂ s' : Cursor} {bs : List Block} {b c : Block} {opened : List Block}

def Cursor.Opens (opened : List Block) (s : Cursor) : Prop :=
  s.scopes.map Scope.start = opened.map (·.span.start)

theorem Cursor.Opens.note (h : s.Opens opened) (hb : b.span.start = s.position) :
    (s.note b.token).Opens (b.nest opened) := by
  unfold Cursor.Opens at h ⊢
  cases ht : b.token with
  | openParen | openGroup | openConditional =>
    rw [Block.nest_opening (by rw [ht]; rfl), List.map_cons, ← h, hb]
    rfl
  | close =>
    rw [Block.nest_close ht, List.map_tail, ← h]
    cases hs : s.scopes <;> simp [Cursor.note, hs]
  | _ =>
    rw [Block.nest_other (by rw [ht]; rfl) (by simp [ht])]
    exact h

theorem Cursor.Opens.next (h : s.Opens opened) (hn : s.next = .ok (some (b, s₁))) :
    s₁.Opens (b.nest opened) := by
  have hspan : b.span.start = s.position := by rw [Cursor.next_span hn, Cursor.spanOf]
  obtain ⟨taken, rest, rfl⟩ := Cursor.next_note hn
  exact h.note hspan

theorem Cursor.Opens.cuts (h : s.Opens opened) (hc : s.Cuts bs s') :
    s'.Opens (bs.foldl (fun opened b => b.nest opened) opened) := by
  induction hc generalizing opened with
  | nil => exact h
  | cons hn _ ih => exact ih (h.next hn)

theorem Cursor.opens_of_cuts {pattern : Text} (h : Cursor.Cuts { unread := pattern } bs s) :
    s.Opens (openers bs) := by
  have hstart : Cursor.Opens [] { unread := pattern } := rfl
  exact hstart.cuts h

/-- What closes a group stands inside one. -/
theorem Cursor.scopes_ne_nil (hn : s.next = .ok (some (b, s₁))) (hb : b.token = .close) :
    s.scopes ≠ [] := by
  obtain ⟨-, lead, htoken, hl, -⟩ := Cursor.next_token hn (by simp [hb])
  have hinside := insideGroup_of_close hl (htoken.trans hb)
  simpa [Cursor.context] using hinside

theorem readLead_canTest {ctx : Context} {t : Text} {lead : Lead}
    (h : readLead ctx t = .ok (some lead)) (ht : t.head? = some '(') (hc : ctx.atTest) :
    lead.token.CanTest := by
  obtain ⟨u, rfl⟩ := List.head?_eq_some_iff.1 ht
  by_cases hu : u.head? = some '?'
  · obtain ⟨v, rfl⟩ := List.head?_eq_some_iff.1 hu
    rcases readConstruct_cases (eq_ok_of_map_some h) with ⟨text, ht⟩ | ⟨opener, ht⟩ | ⟨ht, -⟩
    all_goals
      rw [ht]
      trivial
  · rw [readLead_paren hu] at h
    cases h
    simp [Token.CanTest, Context.nextCapture, hc]

/-- The block behind the opener of a conditional can be a test. -/
theorem Cursor.next_canTest (hb : s.next = .ok (some (b, s₁))) (ht : b.token = .openConditional)
    (hc : s₁.next = .ok (some (c, s₂))) : c.token.CanTest := by
  have hopening : b.token.opening? = some .conditional := by rw [ht]; rfl
  obtain ⟨-, lead, htoken, hl, hunread, hfront, -⟩ := Cursor.next_opening hb hopening
  have hstarts : StartsTest s₁.unread := hunread ▸ startsTest_of_readLead hl (htoken.trans ht)
  have hatTest : s₁.context.atTest := by
    have hnote : s₁.front.atTest = true := by
      rw [hfront, htoken, ht]
      rfl
    exact hnote
  obtain ⟨rest, hu⟩ := List.head?_eq_some_iff.1 hstarts.1
  have hstart : StartsToken s₁.mode.freeSpacing s₁.unread := by
    rw [hu]
    exact .of_shut (shut_paren (hu ▸ hstarts.2))
  obtain ⟨lead', htoken', hl', -⟩ := Cursor.next_of_startsToken hc hstart
  exact htoken' ▸ readLead_canTest hl' hstarts.1 hatTest

theorem blocksOf_wellNested {pattern : Text} {stream : Stream} (h : blocksOf pattern = .ok stream) :
    WellNested stream.blocks := by
  obtain ⟨last, hcuts, -, hscopes, -⟩ := blocksOf_eq_ok.1 h
  have hcomplete : openers stream.blocks = [] := by
    have hopens := Cursor.opens_of_cuts hcuts
    rw [Cursor.Opens, hscopes] at hopens
    exact List.map_eq_nil_iff.1 hopens.symm
  refine ⟨fun before b after hsplit hb hnil => ?_, hcomplete, fun before b after hsplit hb => ?_⟩
  · rw [hsplit] at hcuts
    obtain ⟨s, hbefore, _ | ⟨hn, -⟩⟩ := Cursor.Cuts.append_iff.1 hcuts
    have hopens := Cursor.opens_of_cuts hbefore
    rw [Cursor.Opens, hnil] at hopens
    exact Cursor.scopes_ne_nil hn hb (List.map_eq_nil_iff.1 hopens)
  · rw [hsplit] at hcuts
    cases after with
    | nil =>
      -- the conditional would stay open
      have hopening : b.token.opening? = some .conditional := by rw [hb]; rfl
      rw [hsplit, openers_append, Block.nest_opening hopening] at hcomplete
      cases hcomplete
    | cons c after =>
      obtain ⟨s, -, _ | ⟨hn, _ | ⟨hc, -⟩⟩⟩ := Cursor.Cuts.append_iff.1 hcuts
      exact ⟨c, rfl, Cursor.next_canTest hn hb hc⟩

end Scopes

section Building

variable {g : GroupTable} {bs before after : List Block} {b : Block} {a : Assembly}

/-- Wherever well-nested blocks close a group, the assembly is ready for it. -/
theorem WellNested.canClose (h : WellNested bs) (hr : ∀ b ∈ bs, b.Regular)
    (hsplit : bs = before ++ b :: after) (hb : b.token = .close)
    (ha : before.foldlM (Assembly.push g) {} = .ok a) : a.CanClose g before := by
  have hregular : ∀ c ∈ before, c.Regular := fun c hc => hr c (by simp [hsplit, hc])
  refine (stands_of_pushAll hregular ha).canClose (h.close before b after hsplit hb) ?_
  rintro outer opener inside rfl - hopener
  obtain ⟨c, hc, htest⟩ := h.test outer opener (inside ++ b :: after) (by simp [hsplit]) hopener
  cases inside with
  | nil =>
    cases hc
    rw [hb] at htest
    exact htest.elim
  | cons d inside => exact ⟨c, hc, htest⟩

/-- Building well-nested blocks fails at a block that is refused. -/
theorem WellNested.exists_refuses {error : PatternError} (h : WellNested bs)
    (hr : ∀ b ∈ bs, b.Regular) (he : Node.ofBlocks g bs = .error error) :
    ∃ before b after a, bs = before ++ b :: after ∧
      before.foldlM (Assembly.push g) {} = .ok a ∧ a.Refuses g b error := by
  rcases bind_eq_error.1 he with he | ⟨a, ha, he⟩
  · obtain ⟨before, b, after, a, hsplit, ha, hp⟩ := exists_push_error he
    exact ⟨before, b, after, a, hsplit, ha,
      refuses_of_push (fun hb => h.canClose hr hsplit hb ha) hp⟩
  · have hframes := (stands_of_pushAll hr ha).frames
    rw [h.complete] at hframes
    rw [List.map_eq_nil_iff.1 hframes] at he
    cases he

theorem WellNested.ofBlocks_ne_broken (h : WellNested bs) (hr : ∀ b ∈ bs, b.Regular)
    (detail : String) : Node.ofBlocks g bs ≠ .error (.brokenInvariant detail) := by
  intro he
  obtain ⟨before, b, after, a, -, -, hrefuses⟩ := h.exists_refuses hr he
  cases hrefuses

end Building

/-- What cannot be cut into blocks is malformed somewhere. -/
theorem exists_malformed_of_blocksOf {pattern : Text} {error : PatternError}
    (h : blocksOf pattern = .error error) :
    ∃ position cause, error = .malformed position cause := by
  simp only [blocksOf] at h
  split at h
  next e hstop =>
    cases h
    obtain ⟨fault, hfault, he⟩ := Cursor.exists_fault_of_cut hstop
    have hmalformed := (Cursor.next_metAt hfault).isMalformed
    cases fault with
    | malformed cause => exact ⟨_, cause, he⟩
    | noLiteral => exact hmalformed.elim
  next =>
    cases h
    exact ⟨_, _, rfl⟩
  next => cases h

theorem blocksOf_ne_broken {pattern : Text} {detail : String} :
    blocksOf pattern ≠ .error (.brokenInvariant detail) := by
  intro h
  obtain ⟨position, cause, he⟩ := exists_malformed_of_blocksOf h
  cases he

/-- What holds from the first character of a pattern to the last node of its tree, so that no state
is met that no pattern leads to. -/
structure KeepsInvariants (pattern : Text) : Prop where
  read : ∀ style detail, Pattern.read style pattern ≠ .error (.brokenInvariant detail)
  /-- The cutting stops at malformed places only: literal text is read where there is some. -/
  literal : ∀ fault, (cutPattern pattern).last.next = .error fault → fault.IsMalformed
  /-- The open scopes are the openers that the blocks so far leave open. -/
  scopes : ∀ before s, Cursor.Cuts { unread := pattern } before s → s.Opens (openers before)
  nested : ∀ stream, blocksOf pattern = .ok stream → WellNested stream.blocks
  /-- So are the enclosures, -/
  frames : ∀ g stream before after a, blocksOf pattern = .ok stream →
    stream.blocks = before ++ after → before.foldlM (Assembly.push g) {} = .ok a →
      a.Frames (openers before)
  /-- and where one is closed, it is there, and has its test if it is a conditional. -/
  close : ∀ g stream before b after a, blocksOf pattern = .ok stream →
    stream.blocks = before ++ b :: after → b.token = .close →
      before.foldlM (Assembly.push g) {} = .ok a → a.CanClose g before

theorem keepsInvariants (pattern : Text) : KeepsInvariants pattern := by
  refine ⟨fun style detail h => ?_, fun fault h => (Cursor.next_metAt h).isMalformed,
    fun before s => Cursor.opens_of_cuts, fun stream => blocksOf_wellNested, ?_, ?_⟩
  · rcases bind_eq_error.1 h with h | ⟨⟨tree, groups⟩, -, h⟩
    · rcases bind_eq_error.1 h with h | ⟨stream, hs, h⟩
      · exact blocksOf_ne_broken h
      · rcases bind_eq_error.1 h with h | ⟨root, -, h⟩
        · exact (blocksOf_wellNested hs).ofBlocks_ne_broken (blocksOf_regular hs) detail h
        · cases h
    · cases h
  · intro g stream before after a hs hsplit ha
    refine (stands_of_pushAll (fun b hb => blocksOf_regular hs b ?_) ha).frames
    simp [hsplit, hb]
  · intro g stream before b after a hs hsplit hb ha
    exact (blocksOf_wellNested hs).canClose (blocksOf_regular hs) hsplit hb ha

end RegexAnatomy
