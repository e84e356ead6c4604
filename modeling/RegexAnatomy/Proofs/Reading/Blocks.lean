import RegexAnatomy.Proofs.Reading.Derivation

/-! Reading by blocks. Cutting a pattern up and putting its tree together from the
blocks is reading it, and what can be read can be cut up and put together. The
blocks of a reading are found from its end: the trivia in front of what is read
next may belong to the block before, so they are left out until it is known. -/

namespace RegexAnatomy

def Cursor.front (s : Cursor) : Front := ⟨s.mode, s.captures, s.names, s.atTest⟩

section Steps

variable {s s₁ : Cursor} {b : Block} {t : Text} {lead : Lead}

theorem Cursor.front_note (token : Token) (s : Cursor) (hc : token ≠ .close) :
    (s.note token).front = s.front.note token := by
  unfold Cursor.note Front.note Cursor.front
  cases token <;> first | rfl | exact absurd rfl hc

theorem Cursor.readLead_front (hc : lead.token ≠ .close) :
    readLead s.context t = .ok (some lead) ↔ readLead s.front.context t = .ok (some lead) :=
  ⟨fun h => readLead_of_mode h hc rfl fun _ _ => rfl,
    fun h => readLead_of_mode h hc rfl fun _ _ => rfl⟩

theorem startsToken_iff {free : Bool} {rest : Text} :
    StartsToken free t ∧ rest = t ↔ readTrivia free t = .ok ([], rest) := by
  rw [readTrivia_eq_ok]
  constructor
  · rintro ⟨ht, rfl⟩
    exact ⟨takeTrivia_eq_nil ht.trivia, ht.comment⟩
  · rintro ⟨htake, hcomment⟩
    have hnone : splitTrivia free t = none := by
      refine Option.eq_none_iff_forall_ne_some.2 fun ⟨item, a⟩ hs => ?_
      rw [Alike.takeTrivia_of_some hs] at htake
      cases htake
    obtain rfl : t = rest := by
      rw [takeTrivia_eq_nil hnone] at htake
      exact (Prod.mk.inj htake).2
    exact ⟨⟨hnone, hcomment⟩, rfl⟩

theorem Cursor.next_of_trivia {items : List Trivia} {rest : Text}
    (ht : readTrivia s.mode.freeSpacing s.unread = .ok (items, rest)) (hi : items ≠ []) :
    s.next = .ok (some (s.layoutBlock items,
      { s with atTest := false }.advance (s.layoutBlock items).text rest)) := by
  simp only [Cursor.next, ht, bind, Except.bind, if_pos hi]
  rfl

theorem Cursor.next_of_lead {repetition : Option Repetition} {items : List Trivia} {rest : Text}
    (ht : StartsToken s.mode.freeSpacing s.unread)
    (hl : readLead s.context s.unread = .ok (some lead))
    (hr : lead.readTail (s.note lead.token).mode.freeSpacing = .ok (repetition, items, rest)) :
    ∃ b s₁, s.next = .ok (some (b, s₁)) ∧ b.token = lead.token ∧ b.repetition = repetition ∧
      b.trivia = items ∧ s₁.unread = rest ∧ s₁.front = (s.note lead.token).front ∧
      s₁.scopes = (s.note lead.token).scopes := by
  have ht := startsToken_iff.1 ⟨ht, rfl⟩
  have hnext : s.next = .ok (some (⟨lead.token, s.spanOf lead.token.text, repetition, items⟩,
      (s.note lead.token).advance
        (Block.text ⟨lead.token, s.spanOf lead.token.text, repetition, items⟩) rest)) := by
    simp only [Cursor.next, ht, hl, hr, bind, Except.bind]
    rfl
  exact ⟨_, _, hnext, rfl, rfl, rfl, rfl, rfl, rfl⟩

/-- A block holds the trivia in front, or else a token with its tail. -/
theorem Cursor.next_cases (h : s.next = .ok (some (b, s₁))) :
    (∃ items rest, readTrivia s.mode.freeSpacing s.unread = .ok (items, rest) ∧ items ≠ [] ∧
      b = s.layoutBlock items ∧ s₁ = { s with atTest := false }.advance b.text rest) ∨
    StartsToken s.mode.freeSpacing s.unread ∧ ∃ lead repetition items rest,
      readLead s.context s.unread = .ok (some lead) ∧
      lead.readTail (s.note lead.token).mode.freeSpacing = .ok (repetition, items, rest) ∧
      b = ⟨lead.token, s.spanOf lead.token.text, repetition, items⟩ ∧
      s₁ = (s.note lead.token).advance b.text rest := by
  simp only [Cursor.next, bind_eq_ok] at h
  obtain ⟨⟨items, rest⟩, ht, h⟩ := h
  split at h
  next hi =>
    cases h
    exact .inl ⟨items, rest, ht, hi, rfl, rfl⟩
  next hi =>
    obtain rfl : items = [] := by simpa using hi
    obtain ⟨found, hl, h⟩ := bind_eq_ok.1 h
    cases found with
    | none => cases h
    | some lead =>
      obtain ⟨⟨repetition, items, rest'⟩, hr, h⟩ := bind_eq_ok.1 h
      cases h
      exact .inr ⟨(startsToken_iff.2 ht).1, lead, repetition, items, rest', hl, hr, rfl, rfl⟩

/-- What holds of every token that is read, and where there is none, holds of the block's. -/
theorem Cursor.next_forall_token {P : Token → Prop} (hlayout : P .layout)
    (hP : ∀ ctx t lead, readLead ctx t = .ok (some lead) → P lead.token)
    (h : s.next = .ok (some (b, s₁))) : P b.token := by
  rcases Cursor.next_cases h with ⟨items, rest, -, -, rfl, -⟩ |
    ⟨-, lead, repetition, items, rest, hl, -, rfl, -⟩
  · exact hlayout
  · exact hP _ _ lead hl

theorem forall_mem_blocksOf {P : Token → Prop} {pattern : Text} {stream : Stream}
    (hlayout : P .layout) (hP : ∀ ctx t lead, readLead ctx t = .ok (some lead) → P lead.token)
    (h : blocksOf pattern = .ok stream) : ∀ b ∈ stream.blocks, P b.token := by
  obtain ⟨last, hc, -⟩ := blocksOf_eq_ok.1 h
  exact hc.forall_mem fun _ _ _ => Cursor.next_forall_token hlayout hP

theorem Lead.splitTail_of_readTail {free : Bool} {repetition : Option Repetition}
    {items : List Trivia} {rest : Text} (h : lead.readTail free = .ok (repetition, items, rest)) :
    ∃ a, lead.splitTail free = (repetition, a) ∧ TakesTrivia free a items rest := by
  unfold Lead.readTail at h
  unfold Lead.splitTail
  split at h
  next hr =>
    rw [if_pos hr]
    exact splitRepetition_of_readRepetition h
  next hr =>
    cases h
    rw [if_neg hr]
    exact ⟨_, rfl, .inl ⟨rfl, rfl⟩⟩

theorem Front.settle_note {token : Token} (h : token ≠ .openConditional) (f : Front) :
    (f.note token).settle = f.note token := by
  unfold Front.note Front.settle
  cases token <;> first | rfl | exact absurd rfl h

theorem Cursor.Cuts.append_iff {s s' : Cursor} {bs bs' : List Block} :
    s.Cuts (bs ++ bs') s' ↔ ∃ between, s.Cuts bs between ∧ between.Cuts bs' s' := by
  induction bs generalizing s with
  | nil =>
    refine ⟨fun h => ⟨s, .nil s, h⟩, ?_⟩
    rintro ⟨_, ⟨⟩, h⟩
    exact h
  | cons b bs ih =>
    constructor
    · rintro (_ | ⟨hb, h⟩)
      obtain ⟨between, h1, h2⟩ := ih.1 h
      exact ⟨between, .cons hb h1, h2⟩
    · rintro ⟨between, _ | ⟨hb, h1⟩, h2⟩
      exact .cons hb (ih.2 ⟨between, h1, h2⟩)

end Steps

section Yields

variable {g : GroupTable} {b b' : Block} {nodes : List Node}

theorem numericEscapeNodes_of_span {text : Text} {span : Span} {s : Suffix}
    (h : numericEscapeNodes g text span s = .ok nodes) (span' : Span) :
    numericEscapeNodes g text span' s = .ok nodes := by
  simp only [numericEscapeNodes] at h ⊢
  split at h
  next hr => rw [if_pos hr, h]
  next hr =>
    rw [if_neg hr]
    split at h
    · cases h
    next hd =>
      rw [if_neg hd]
      split at h
      · cases h
      next ho => rw [if_neg ho, h]

/-- Where a block stands does not matter, nor the trivia behind it. -/
theorem Block.Yields.congr (h : b.Yields g nodes) (ht : b'.token = b.token)
    (hr : b'.repetition = b.repetition) : b'.Yields g nodes := by
  have hs : b'.suffix = b.suffix := by rw [Block.suffix, hr, Block.suffix]
  cases h with
  | layout h => exact .layout (ht.trans h)
  | options h => exact .options (ht.trans h)
  | atom h => exact hs ▸ .atom (ht ▸ h)
  | reference h hk => exact hs ▸ .reference (ht.trans h) hk
  | escape h hn => exact .escape (ht.trans h) (hs ▸ numericEscapeNodes_of_span hn _)

end Yields

section Trivia

variable {g : GroupTable} {f f' : Front} {t a t' : Text} {items : List Trivia} {branch : List Node}
  {branches : List (List Node)}

def Front.pass (items : List Trivia) (f : Front) : Front := if items = [] then f else f.settle

theorem Front.settle_pass (items : List Trivia) (f : Front) : f.settle.pass items = f.settle := by
  unfold Front.pass
  split <;> rfl

theorem Reads.of_takeTrivia (ht : takeTrivia f.mode.freeSpacing t = (items, a))
    (h : Reads g (f.pass items) a (branch :: branches) f' t') :
    Reads g f t ((items.map Trivia.node ++ branch) :: branches) f' t' := by
  induction items generalizing f t with
  | nil =>
    obtain rfl : a = t := by
      have htext := takeTrivia_append f.mode.freeSpacing t
      rwa [ht] at htext
    exact h
  | cons item items ih =>
    cases hs : splitTrivia f.mode.freeSpacing t with
    | none => rw [takeTrivia_eq_nil hs] at ht; cases ht
    | some found =>
      obtain ⟨item', rest⟩ := found
      rw [Alike.takeTrivia_of_some hs] at ht
      cases ht
      refine .trivia hs (ih rfl ?_)
      rw [Front.settle_pass]
      exact h

theorem Reads.of_takesTrivia (hf : f.settle = f) (ht : TakesTrivia f.mode.freeSpacing a items t)
    (h : Reads g f t (branch :: branches) f' t') :
    Reads g f a ((items.map Trivia.node ++ branch) :: branches) f' t' := by
  rcases ht with ⟨rfl, rfl⟩ | ht
  · exact h
  · refine .of_takeTrivia ht ?_
    rw [← hf, Front.settle_pass, hf]
    exact h

end Trivia

section Sound

variable {g : GroupTable} {s s₁ s' : Cursor} {b : Block}

/-- A block that holds more than trivia is the token at the cursor with its tail. -/
theorem Cursor.next_token (h : s.next = .ok (some (b, s₁))) (hb : b.token ≠ .layout) :
    StartsToken s.mode.freeSpacing s.unread ∧ ∃ lead, lead.token = b.token ∧
      readLead s.context s.unread = .ok (some lead) ∧
      lead.readTail (s.note lead.token).mode.freeSpacing =
        .ok (b.repetition, b.trivia, s₁.unread) ∧
      s₁.front = (s.note lead.token).front ∧ s₁.scopes = (s.note lead.token).scopes := by
  rcases Cursor.next_cases h with ⟨items, rest, -, -, rfl, -⟩ |
    ⟨ht, lead, _, _, _, hl, hr, rfl, rfl⟩
  · exact absurd rfl hb
  · exact ⟨ht, lead, rfl, hl, hr, rfl, rfl⟩

/-- Where a token starts, the next block holds it. -/
theorem Cursor.next_of_startsToken (h : s.next = .ok (some (b, s₁)))
    (ht : StartsToken s.mode.freeSpacing s.unread) :
    ∃ lead, lead.token = b.token ∧ readLead s.context s.unread = .ok (some lead) ∧
      lead.readTail (s.note lead.token).mode.freeSpacing =
        .ok (b.repetition, b.trivia, s₁.unread) := by
  rcases Cursor.next_cases h with ⟨items, rest, hi, hne, -, -⟩ |
    ⟨-, lead, _, _, _, hl, hr, rfl, rfl⟩
  · rw [startsToken_iff.1 ⟨ht, rfl⟩] at hi
    cases hi
    exact absurd rfl hne
  · exact ⟨lead, rfl, hl, hr⟩

theorem Cursor.note_close {scope : Scope} {outer : List Scope} (hs : s.scopes = scope :: outer) :
    s.note .close = { s with atTest := false, mode := scope.saved, scopes := outer } := by
  simp only [Cursor.note, hs]
  rfl

/-- What opens a group opens it at the cursor, and nothing but the token is in its block. -/
theorem Cursor.next_opening {opening : Opening} (h : s.next = .ok (some (b, s₁)))
    (ho : b.token.opening? = some opening) :
    StartsToken s.mode.freeSpacing s.unread ∧ ∃ lead, lead.token = b.token ∧
      readLead s.front.context s.unread = .ok (some lead) ∧ s₁.unread = lead.rest ∧
      s₁.front = s.front.note lead.token ∧ s₁.scopes = ⟨s.position, s.mode⟩ :: s.scopes := by
  have hb : b.token ≠ .layout := by
    intro hb
    rw [hb] at ho
    cases ho
  obtain ⟨ht, lead, htoken, hl, hr, hfront, hscopes⟩ := Cursor.next_token h hb
  rw [← htoken] at ho
  have hc := Token.ne_close_of_opening ho
  rw [Lead.readTail, (readLead_regular hl).alone (Token.standsAlone_of_opening ho)] at hr
  have hunread : lead.rest = s₁.unread := congrArg (·.2.2) (Except.ok.inj hr)
  refine ⟨ht, lead, htoken, (Cursor.readLead_front hc).1 hl, hunread.symm,
    hfront.trans (Cursor.front_note _ _ hc), hscopes.trans ?_⟩
  cases ht : lead.token <;> rw [ht] at ho <;> cases ho <;> rfl

theorem Cursor.isStop_of_close (h : s.next = .ok (some (b, s₁))) (hc : b.token = .close) :
    IsStop s.unread := by
  obtain ⟨-, lead, htoken, hl, -⟩ := Cursor.next_token h (by simp [hc])
  rw [(readLead_close hl (htoken.trans hc)).1]
  simp [IsStop]

theorem Cursor.next_close {scope : Scope} {outer : List Scope} (h : s.next = .ok (some (b, s₁)))
    (hc : b.token = .close) (hs : s.scopes = scope :: outer) :
    ∃ a b', s.unread = ')' :: a ∧ splitRepetition scope.saved.freeSpacing a = (b.repetition, b') ∧
      TakesTrivia scope.saved.freeSpacing b' b.trivia s₁.unread ∧ s₁.scopes = outer ∧
      s₁.front = { s.front with mode := scope.saved, atTest := false } := by
  obtain ⟨-, lead, htoken, hl, hr, hfront, hscopes⟩ := Cursor.next_token h (by simp [hc])
  obtain ⟨hunread, hrepeatable⟩ := readLead_close hl (htoken.trans hc)
  rw [htoken, hc, Cursor.note_close hs] at hr hfront hscopes
  obtain ⟨a, ha, htrivia⟩ := Lead.splitTail_of_readTail hr
  rw [Lead.splitTail, if_pos hrepeatable] at ha
  exact ⟨lead.rest, a, hunread, ha, htrivia, hscopes, hfront⟩

theorem Cursor.next_bar (h : s.next = .ok (some (b, s₁))) (hb : b.token = .bar) :
    s.unread = '|' :: s₁.unread ∧ s₁.scopes = s.scopes ∧ s₁.front = s.front.settle := by
  obtain ⟨-, lead, htoken, hl, hr, hfront, hscopes⟩ := Cursor.next_token h (by simp [hb])
  have hcovers := (readLead_covers hl).1
  rw [Lead.readTail, (readLead_regular hl).alone (by rw [htoken, hb]; trivial)] at hr
  have hunread : lead.rest = s₁.unread := congrArg (·.2.2) (Except.ok.inj hr)
  rw [htoken, hb] at hcovers hfront hscopes
  rw [← hunread]
  exact ⟨hcovers.symm, hscopes, hfront⟩

theorem Cursor.note_scopes {token : Token} (ho : token.opening? = none) (hc : token ≠ .close)
    (s : Cursor) : (s.note token).scopes = s.scopes := by
  unfold Cursor.note
  cases token <;> first | rfl | exact absurd rfl hc | cases ho

theorem Block.Yields.token_ne {nodes : List Node} (h : b.Yields g nodes) :
    b.token.opening? = none ∧ b.token ≠ .close := by
  cases h with
  | layout h => simp [h, Token.opening?]
  | options h => simp [h, Token.opening?]
  | atom h => cases ht : b.token <;> simp_all [Token.atom?, Token.opening?]
  | reference h => simp [h, Token.opening?]
  | escape h => simp [h, Token.opening?]

/-- A block that yields nodes is read like its token and its trivia one after another. -/
theorem Reads.of_yields {nodes branch : List Node} {branches : List (List Node)} {f' : Front}
    {t' : Text} (hn : s.next = .ok (some (b, s₁))) (hy : b.Yields g nodes)
    (hc : ∀ r ∈ b.repetition, r.IsCanonical)
    (h : Reads g s₁.front s₁.unread (branch :: branches) f' t') :
    s₁.scopes = s.scopes ∧
      Reads g s.front s.unread ((nodes ++ b.loose ++ branch) :: branches) f' t' := by
  have hne := hy.token_ne
  rcases Cursor.next_cases hn with ⟨items, rest, ht, hi, rfl, rfl⟩ |
    ⟨ht, lead, repetition, items, rest, hl, hr, rfl, rfl⟩
  · obtain rfl : nodes = [] := by
      cases hy with
      | layout => rfl
      | atom h => cases h
      | options h | reference h | escape h => cases h
    refine ⟨rfl, .of_takeTrivia (readTrivia_eq_ok.1 ht).1 ?_⟩
    have hpass : s.front.pass (s.layoutBlock items).trivia = s.front.settle := if_neg hi
    rw [hpass]
    exact h
  · dsimp only at hne
    have hfront := Cursor.front_note lead.token s hne.2
    obtain ⟨a, ha, htrivia⟩ := Lead.splitTail_of_readTail hr
    refine ⟨Cursor.note_scopes hne.1 hne.2 s, ?_⟩
    rw [Block.loose_of_canonical hc, List.append_assoc]
    have hsettle : (s.front.note lead.token).settle = s.front.note lead.token := by
      refine Front.settle_note (fun htoken => ?_) _
      rw [htoken] at hne
      cases hne.1
    have hmode : (s.note lead.token).mode = (s.front.note lead.token).mode :=
      congrArg Front.mode hfront
    rw [hmode] at ha htrivia
    replace h : Reads g (s.front.note lead.token) rest (branch :: branches) f' t' := hfront ▸ h
    exact .leaf ht ((Cursor.readLead_front hne.2).1 hl) ha hc (hy.congr rfl rfl)
      (.of_takesTrivia hsettle htrivia h)

/-- Cutting and putting together is reading. -/
theorem Assembles.reads {bs : List Block} {branches : List (List Node)}
    (h : Assembles g bs branches) : ∀ {s s' : Cursor}, s.Cuts bs s' → IsStop s'.unread →
      (∀ b ∈ bs, ∀ r ∈ b.repetition, r.IsCanonical) →
      s'.scopes = s.scopes ∧ Reads g s.front s.unread branches s'.front s'.unread := by
  induction h with
  | nil =>
    rintro s _ ⟨⟩ hstop -
    exact ⟨rfl, .stop hstop⟩
  | leaf hb h ih =>
    rintro s s' (_ | ⟨hn, hcuts⟩) hstop hc
    obtain ⟨hc, hcs⟩ := List.forall_mem_cons.1 hc
    obtain ⟨hscopes, hr⟩ := ih hcuts hstop hcs
    obtain ⟨hscopes', hr⟩ := Reads.of_yields hn hb hc hr
    exact ⟨hscopes.trans hscopes', hr⟩
  | bar hb h ih =>
    rintro s s' (_ | ⟨hn, hcuts⟩) hstop hc
    obtain ⟨hscopes, hr⟩ := ih hcuts hstop (List.forall_mem_cons.1 hc).2
    obtain ⟨hunread, hscopes', hfront⟩ := Cursor.next_bar hn hb
    rw [hfront] at hr
    rw [hunread]
    exact ⟨hscopes.trans hscopes', .bar hr⟩
  | @group opener closer opening inner bs level node branch branches ho hi hclose hnode h ihi ih =>
    intro s s' hcuts hstop hc
    obtain ⟨s₂, _ | ⟨hopen, hinner⟩, hrest⟩ := Cursor.Cuts.append_iff.1 hcuts
    obtain _ | ⟨hn, hcuts⟩ := hrest
    have hri : ∀ b ∈ inner, ∀ r ∈ b.repetition, r.IsCanonical := fun b hb => hc b (by simp [hb])
    have hrs : ∀ b ∈ bs, ∀ r ∈ b.repetition, r.IsCanonical := fun b hb => hc b (by simp [hb])
    have hcloser : ∀ r ∈ closer.repetition, r.IsCanonical := hc closer (by simp)
    obtain ⟨ht, lead, htoken, hl, hunread, hfront, hscopes⟩ := Cursor.next_opening hopen ho
    obtain ⟨hscopes₂, hinside⟩ := ihi hinner (Cursor.isStop_of_close hn hclose) hri
    obtain ⟨a, b', ha, hs, htrivia, hscopes₃, hfront₃⟩ :=
      Cursor.next_close hn hclose (hscopes₂.trans hscopes)
    obtain ⟨hscopes', hrest⟩ := ih hcuts hstop hrs
    rw [hunread, hfront, ha] at hinside
    rw [hfront₃] at hrest
    refine ⟨hscopes'.trans hscopes₃, ?_⟩
    rw [Block.loose_of_canonical hcloser, List.append_assoc]
    exact .group ht hl (htoken ▸ ho) hinside hnode hs hcloser (.of_takesTrivia rfl htrivia hrest)

end Sound

/-- From any cursor with this front on, the text is cut into blocks that give the branches. -/
def CanCut (g : GroupTable) (f : Front) (t : Text) (branches : List (List Node)) (f' : Front)
    (t' : Text) : Prop :=
  ∀ s : Cursor, s.front = f → s.unread = t → ∃ bs s', s.Cuts bs s' ∧ Assembles g bs branches ∧
    s'.front = f' ∧ s'.unread = t' ∧ s'.scopes = s.scopes

/-- The same behind the trivia in front, which are left to the block before. -/
def CanCutBehind (g : GroupTable) (f : Front) (t : Text) (branches : List (List Node)) (f' : Front)
    (t' : Text) : Prop :=
  ∃ items rest tail others, takeTrivia f.mode.freeSpacing t = (items, rest) ∧
    branches = (items.map Trivia.node ++ tail) :: others ∧
      CanCut g (f.pass items) rest (tail :: others) f' t'

section Complete

variable {g : GroupTable} {f f' : Front} {t a t' : Text} {items : List Trivia} {branch : List Node}
  {branches : List (List Node)}

theorem CanCut.behind (h : CanCut g f t (branch :: branches) f' t')
    (ht : splitTrivia f.mode.freeSpacing t = none) :
    CanCutBehind g f t (branch :: branches) f' t' :=
  ⟨[], t, branch, branches, takeTrivia_eq_nil ht, rfl, h⟩

/-- Trivia that no block before takes make a block of their own. -/
theorem CanCutBehind.canCut (h : CanCutBehind g f t branches f' t')
    (hc : startsComment (takeTrivia f.mode.freeSpacing t).2 = false) :
    CanCut g f t branches f' t' := by
  obtain ⟨items, rest, tail, others, ht, rfl, h⟩ := h
  rintro s rfl rfl
  replace ht : readTrivia s.mode.freeSpacing s.unread = .ok (items, rest) :=
    readTrivia_eq_ok.2 ⟨ht, by rwa [ht] at hc⟩
  by_cases hi : items = []
  · subst hi
    exact h s rfl (startsToken_iff.2 ht).2.symm
  · have hfront : s.front.pass items = s.front.settle := if_neg hi
    obtain ⟨bs, s', hcuts, hA, hrest⟩ := h
      (Cursor.advance { s with atTest := false } (s.layoutBlock items).text rest) hfront.symm rfl
    refine ⟨s.layoutBlock items :: bs, s', .cons (Cursor.next_of_trivia ht hi) hcuts, ?_, hrest⟩
    exact .leaf (.layout rfl) hA

theorem CanCutBehind.of_takesTrivia (hf : f.settle = f)
    (ht : TakesTrivia f.mode.freeSpacing a items t)
    (hc : startsComment (takeTrivia f.mode.freeSpacing a).2 = false)
    (h : CanCutBehind g f a (branch :: branches) f' t') :
    ∃ tail, branch = items.map Trivia.node ++ tail ∧ CanCut g f t (tail :: branches) f' t' := by
  rcases ht with ⟨rfl, rfl⟩ | ht
  · exact ⟨branch, rfl, h.canCut hc⟩
  · obtain ⟨items', rest, tail, others, ht', hb, h⟩ := h
    rw [ht] at ht'
    cases ht'
    cases hb
    rw [← hf, Front.settle_pass, hf] at h
    exact ⟨tail, rfl, h⟩

theorem Lead.readTail_of_splitTail {free : Bool} {lead : Lead} {repetition : Option Repetition}
    (h : lead.splitTail free = (repetition, a)) (hc : startsComment (takeTrivia free a).2 = false) :
    ∃ items rest, lead.readTail free = .ok (repetition, items, rest) ∧
      TakesTrivia free a items rest := by
  unfold Lead.splitTail at h
  unfold Lead.readTail
  split at h
  next hr =>
    rw [if_pos hr]
    exact readRepetition_of_split h hc
  next hr =>
    cases h
    rw [if_neg hr]
    exact ⟨[], _, rfl, .inl ⟨rfl, rfl⟩⟩

theorem testCondition_of_start {start : Nat} {test : Node} {condition : Condition}
    (h : testCondition g start test = .ok condition) (start' : Nat) :
    testCondition g start' test = .ok condition :=
  testCondition_eq_ok.2 (testCondition_eq_ok.1 h)

theorem Opening.node_of_start {opening : Opening} {start : Nat} {level : Level} {node : Node}
    (h : opening.node g start level = .ok node) (start' : Nat) :
    opening.node g start' level = .ok node := by
  have conditional {test : Node} {yes : List Node} {no : Option (List Node)}
      (h : conditionalNode g start test yes no = .ok node) :
      conditionalNode g start' test yes no = .ok node := by
    obtain ⟨condition, hc, h⟩ := bind_eq_ok.1 h
    exact bind_eq_ok.2 ⟨condition, testCondition_of_start hc start', h⟩
  cases opening with
  | bracket => exact h
  | group => exact h
  | conditional =>
    simp only [Opening.node] at h ⊢
    split at h
    next => exact conditional h
    next => exact conditional h
    all_goals cases h

theorem Cursor.next_of_opening {s : Cursor} {lead : Lead} {opening : Opening}
    (ht : StartsToken s.mode.freeSpacing s.unread)
    (hl : readLead s.front.context s.unread = .ok (some lead))
    (ho : lead.token.opening? = some opening) : ∃ b s₁, s.next = .ok (some (b, s₁)) ∧
      b.token = lead.token ∧ s₁.unread = lead.rest ∧ s₁.front = s.front.note lead.token ∧
      s₁.scopes = ⟨s.position, s.mode⟩ :: s.scopes := by
  have hc := Token.ne_close_of_opening ho
  have halone : lead.token.StandsAlone := Token.standsAlone_of_opening ho
  have hr : lead.readTail (s.note lead.token).mode.freeSpacing = .ok (none, [], lead.rest) := by
    rw [Lead.readTail, (readLead_regular hl).alone halone]
    rfl
  obtain ⟨b, s₁, hnext, htoken, -, -, hu, hf, hs⟩ :=
    Cursor.next_of_lead ht ((Cursor.readLead_front hc).2 hl) hr
  refine ⟨b, s₁, hnext, htoken, hu, hf.trans (Cursor.front_note _ _ hc), hs.trans ?_⟩
  cases ht : lead.token <;> rw [ht] at ho <;> cases ho <;> rfl

theorem Cursor.next_of_close {s : Cursor} {scope : Scope} {outer : List Scope}
    {repetition : Option Repetition} {items : List Trivia} {rest : Text}
    (hu : s.unread = ')' :: a) (hs : s.scopes = scope :: outer)
    (hr : readRepetition scope.saved.freeSpacing a = .ok (repetition, items, rest)) :
    ∃ b s₁, s.next = .ok (some (b, s₁)) ∧ b.token = .close ∧ b.repetition = repetition ∧
      b.trivia = items ∧ s₁.unread = rest ∧ s₁.scopes = outer ∧
      s₁.front = { s.front with mode := scope.saved, atTest := false } := by
  have hnote := Cursor.note_close hs
  have hl : readLead s.context s.unread = .ok (some ⟨.close, a, true⟩) := by
    simp [hu, readLead, Cursor.context, hs]
  have hr : Lead.readTail (s.note .close).mode.freeSpacing ⟨.close, a, true⟩ =
      .ok (repetition, items, rest) := by
    rw [hnote]
    exact hr
  have ht : StartsToken s.mode.freeSpacing s.unread := by
    rw [hu]
    exact .of_shut (shut_operator (by decide))
  obtain ⟨b, s₁, hnext, htoken, hrep, hitems, hu, hf, hs⟩ := Cursor.next_of_lead ht hl hr
  rw [hnote] at hf hs
  exact ⟨b, s₁, hnext, htoken, hrep, hitems, hu, hs, hf⟩

theorem CanCutBehind.stop (ht : IsStop t) : CanCutBehind g f t [[]] f t := by
  have hshut : Shut f.mode.freeSpacing t := ht.shut
  refine CanCut.behind ?_ hshut.trivia
  rintro s rfl rfl
  exact ⟨[], s, .nil s, .nil, rfl, rfl, rfl⟩

theorem CanCut.bar (h : CanCut g f.settle t branches f' t') :
    CanCut g f ('|' :: t) ([] :: branches) f' t' := by
  rintro s rfl hu
  have ht : StartsToken s.mode.freeSpacing ('|' :: t) := .of_shut (shut_operator (by decide))
  have hl : readLead s.context s.unread = .ok (some ⟨.bar, t, false⟩) := by
    rw [hu]
    rfl
  rw [← hu] at ht
  obtain ⟨b, s₁, hnext, htoken, -, -, hu, hf, hscopes⟩ := Cursor.next_of_lead ht hl rfl
  obtain ⟨bs, s', hcuts, hA, hf', hu', hscopes'⟩ := h s₁ hf hu
  exact ⟨b :: bs, s', .cons hnext hcuts, .bar htoken hA, hf', hu', hscopes'.trans hscopes⟩

theorem CanCutBehind.trivia {item : Trivia} (hs : splitTrivia f.mode.freeSpacing t = some (item, a))
    (h : CanCutBehind g f.settle a (branch :: branches) f' t') :
    CanCutBehind g f t ((item.node :: branch) :: branches) f' t' := by
  obtain ⟨items, rest, tail, others, ht, hb, h⟩ := h
  obtain ⟨rfl, rfl⟩ := List.cons.inj hb
  have ht : takeTrivia f.mode.freeSpacing a = (items, rest) := ht
  refine ⟨item :: items, rest, tail, _, ?_, rfl, ?_⟩
  · rw [Alike.takeTrivia_of_some hs, ht]
  · rw [Front.settle_pass] at h
    exact h

theorem CanCut.leaf {lead : Lead} {repetition : Option Repetition} {nodes : List Node}
    (ht : StartsToken f.mode.freeSpacing t) (hl : readLead f.context t = .ok (some lead))
    (hs : lead.splitTail (f.note lead.token).mode.freeSpacing = (repetition, a))
    (hc : ∀ r ∈ repetition, r.IsCanonical) (hy : (lead.token.block repetition).Yields g nodes)
    (hcomment : startsComment (takeTrivia (f.note lead.token).mode.freeSpacing a).2 = false)
    (h : CanCutBehind g (f.note lead.token) a (branch :: branches) f' t') :
    CanCut g f t ((nodes ++ branch) :: branches) f' t' := by
  rintro s rfl rfl
  have hne := hy.token_ne
  have hnote : (s.note lead.token).front = s.front.note lead.token := Cursor.front_note _ s hne.2
  have hsettle : (s.front.note lead.token).settle = s.front.note lead.token := by
    refine Front.settle_note (fun htoken => ?_) _
    have ho : lead.token.opening? = none := hne.1
    rw [htoken] at ho
    cases ho
  rw [← hnote] at hs hsettle hcomment h
  obtain ⟨items, rest, hr, htrivia⟩ := Lead.readTail_of_splitTail hs hcomment
  obtain ⟨tail, rfl, hcut⟩ := h.of_takesTrivia hsettle htrivia hcomment
  obtain ⟨b, s₁, hnext, htoken, rfl, rfl, hu, hf, hscopes⟩ :=
    Cursor.next_of_lead ht ((Cursor.readLead_front hne.2).2 hl) hr
  obtain ⟨bs, s', hcuts, hA, hf', hu', hscopes'⟩ := hcut s₁ hf hu
  refine ⟨b :: bs, s', .cons hnext hcuts, ?_, hf', hu',
    hscopes'.trans (hscopes.trans (Cursor.note_scopes hne.1 hne.2 s))⟩
  rw [← Block.loose_of_canonical hc, ← List.append_assoc]
  exact .leaf (hy.congr htoken rfl) hA

theorem CanCut.group {inside : Front} {b : Text} {lead : Lead} {opening : Opening} {start : Nat}
    {level : Level} {node : Node} {repetition : Option Repetition}
    (ht : StartsToken f.mode.freeSpacing t) (hl : readLead f.context t = .ok (some lead))
    (ho : lead.token.opening? = some opening)
    (hi : CanCut g (f.note lead.token) lead.rest level.branches inside (')' :: a))
    (hn : opening.node g start level = .ok node)
    (hs : splitRepetition f.mode.freeSpacing a = (repetition, b))
    (hc : ∀ r ∈ repetition, r.IsCanonical)
    (hcomment : startsComment (takeTrivia f.mode.freeSpacing b).2 = false)
    (h : CanCutBehind g (inside.leave f) b (branch :: branches) f' t') : CanCut g f t
      ((quantify node (Token.close.block repetition).suffix ++ branch) :: branches) f' t' := by
  rintro s rfl rfl
  obtain ⟨opener, s₁, hopen, htoken, hu₁, hf₁, hscopes₁⟩ := Cursor.next_of_opening ht hl ho
  obtain ⟨inner, s₂, hinner, hAi, rfl, hu₂, hscopes₂⟩ := hi s₁ hf₁ hu₁
  obtain ⟨items, rest, hr, htrivia⟩ := readRepetition_of_split hs hcomment
  replace htrivia : TakesTrivia (s₂.front.leave s.front).mode.freeSpacing b items rest := htrivia
  obtain ⟨tail, rfl, hcut⟩ := h.of_takesTrivia rfl htrivia hcomment
  obtain ⟨closer, s₃, hnext, hclose, rfl, rfl, hu₃, hscopes₃, hf₃⟩ :=
    Cursor.next_of_close hu₂ (hscopes₂.trans hscopes₁) hr
  obtain ⟨bs, s', hcuts, hA, hf', hu', hscopes'⟩ := hcut s₃ hf₃ hu₃
  refine ⟨opener :: inner ++ closer :: bs, s', ?_, ?_, hf', hu', hscopes'.trans hscopes₃⟩
  · exact .cons hopen (Cursor.Cuts.append_iff.2 ⟨s₂, hinner, .cons hnext hcuts⟩)
  · rw [← Block.loose_of_canonical hc, ← List.append_assoc]
    exact .group (htoken ▸ ho) hAi hclose (Opening.node_of_start hn _) hA

/-- What can be read can be cut up and put together. -/
theorem Reads.canCutBehind (h : Reads g f t branches f' t') :
    CanCutBehind g f t branches f' t' := by
  induction h with
  | stop ht => exact .stop ht
  | bar h ih =>
    exact (CanCut.bar (ih.canCut h.no_quantifier.2)).behind (shut_operator (by decide)).trivia
  | trivia hs h ih => exact .trivia hs ih
  | leaf ht hl hs hc hy h ih =>
    exact (CanCut.leaf ht hl hs hc hy h.no_quantifier.2 ih).behind ht.trivia
  | group ht hl ho hi hn hs hc h ihi ih =>
    have hinner := ihi.canCut hi.no_quantifier.2
    exact (CanCut.group ht hl ho hinner hn hs hc h.no_quantifier.2 ih).behind ht.trivia

end Complete

/-- A pattern that can be cut into canonical blocks is read from the first front on to its end. -/
theorem reads_of_blocksOf {g : GroupTable} {pattern : Text} {stream : Stream}
    {branches : List (List Node)} (hs : blocksOf pattern = .ok stream)
    (hA : Assembles g stream.blocks branches)
    (hc : ∀ b ∈ stream.blocks, ∀ r ∈ b.repetition, r.IsCanonical) :
    ∃ f, Reads g {} pattern branches f [] ∧ f.captures = stream.captures ∧
      f.names = stream.names := by
  obtain ⟨last, hcuts, hu, -, hcaptures, hnames⟩ := blocksOf_eq_ok.1 hs
  obtain ⟨-, h⟩ := hA.reads hcuts (by simp [IsStop, hu]) hc
  rw [hu] at h
  exact ⟨last.front, h, hcaptures.symm, hnames.symm⟩

/-- A reading of a whole pattern gives its tree. -/
theorem readTree_of_reads {pattern : Text} {branches : List (List Node)} {f : Front}
    (h : Reads (.ofCaptures f.captures f.names) {} pattern branches f []) :
    readTree pattern = .ok (bodyNode branches, .ofCaptures f.captures f.names) := by
  obtain ⟨bs, last, hcuts, hA, rfl, hu, hscopes⟩ :=
    h.canCutBehind.canCut h.no_quantifier.2 { unread := pattern } rfl rfl
  have hs : blocksOf pattern = .ok ⟨bs, last.captures, last.names⟩ :=
    blocksOf_eq_ok.2 ⟨last, hcuts, hu, hscopes, rfl, rfl⟩
  have htree := hA.ofBlocks (blocksOf_regular hs)
  refine bind_eq_ok.2 ⟨_, hs, bind_eq_ok.2 ⟨_, htree, rfl⟩⟩

end RegexAnatomy
