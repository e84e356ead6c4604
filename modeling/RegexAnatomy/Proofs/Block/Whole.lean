import RegexAnatomy.Proofs.Block.Regular

/-! The cutting of a pattern as a relation between cursors, one block a step. What
every step keeps, a whole cutting keeps: the texts of the blocks make up what has
been passed, and the names are those that the blocks declare. -/

namespace RegexAnatomy

inductive Cursor.Cuts : Cursor → List Block → Cursor → Prop
  | nil (s : Cursor) : Cuts s [] s
  | cons {s s₁ s₂ : Cursor} {b : Block} {bs : List Block} (h : s.next = .ok (some (b, s₁)))
      (hs : Cuts s₁ bs s₂) : Cuts s (b :: bs) s₂

theorem Cursor.cuts_cut (s : Cursor) : s.Cuts s.cut.blocks s.cut.last := by
  fun_induction Cursor.cut s with
  | case1 s => exact .nil s
  | case2 s => exact .nil s
  | case3 s b s' h _ cutting ih => exact .cons h ih

theorem Cursor.next_last_of_cut {s : Cursor} (h : s.cut.stop = none) :
    s.cut.last.next = .ok none := by
  fun_induction Cursor.cut s with
  | case1 => cases h
  | case2 s hn => exact hn
  | case3 s b s' _ _ cutting ih => exact ih h

theorem Cursor.Cuts.cut_eq {s s' : Cursor} {bs : List Block} (h : s.Cuts bs s')
    (hn : s'.next = .ok none) : s.cut = ⟨bs, none, s'⟩ := by
  induction h with
  | nil s =>
    unfold Cursor.cut
    split <;> simp_all
  | cons h hs ih =>
    unfold Cursor.cut
    split <;> simp_all

theorem splitTrivia_nil (free : Bool) : splitTrivia free [] = none := by
  cases free <;> rfl

theorem takeTrivia_eq_nil {free : Bool} {t : Text} (h : splitTrivia free t = none) :
    takeTrivia free t = ([], t) := by
  unfold takeTrivia
  split
  · rfl
  next hs => rw [h] at hs; cases hs

theorem readLead_eq_none {ctx : Context} {t : Text} (h : readLead ctx t = .ok none) : t = [] := by
  have some_ne {e : Except Fault Lead} : some <$> e ≠ .ok none := by
    cases e <;> rintro ⟨⟩
  unfold readLead at h
  split at h
  case h_1 => rfl
  case h_2 => exact absurd h some_ne
  case h_4 => split at h <;> cases h
  case h_8 =>
    obtain ⟨⟨text, rest⟩, -, h⟩ := bind_eq_ok.1 h
    cases h
  case h_9 => exact absurd h some_ne
  case h_10 =>
    split at h
    · cases h
    · exact absurd h some_ne
  all_goals cases h

theorem Cursor.next_eq_none {s : Cursor} : s.next = .ok none ↔ s.unread = [] := by
  constructor
  · intro h
    simp only [Cursor.next, bind_eq_ok] at h
    obtain ⟨⟨items, rest⟩, -, h⟩ := h
    split at h
    · cases h
    obtain ⟨found, hl, h⟩ := bind_eq_ok.1 h
    cases found with
    | none => exact readLead_eq_none hl
    | some lead =>
      obtain ⟨⟨repetition, items, rest⟩, -, h⟩ := bind_eq_ok.1 h
      cases h
  · intro h
    rw [Cursor.next, h, readTrivia, takeTrivia_eq_nil (splitTrivia_nil _)]
    rfl

section Cuts

variable {s s' : Cursor} {bs : List Block}

/-- What holds of every block at the moment it is cut off. -/
theorem Cursor.Cuts.forall_mem {P : Block → Prop}
    (hP : ∀ (s : Cursor) (b : Block) (s' : Cursor), s.next = .ok (some (b, s')) → P b)
    (h : s.Cuts bs s') : ∀ b ∈ bs, P b := by
  induction h with
  | nil => simp
  | cons h _ ih => exact List.forall_mem_cons.2 ⟨hP _ _ _ h, ih⟩

theorem Cursor.Cuts.regular (h : s.Cuts bs s') : ∀ b ∈ bs, b.Regular :=
  h.forall_mem fun _ _ _ => Cursor.next_regular

theorem Cursor.Cuts.text (h : s.Cuts bs s') : bs.flatMap Block.text ++ s'.unread = s.unread := by
  induction h with
  | nil => rfl
  | cons h _ ih => rw [List.flatMap_cons, List.append_assoc, ih, (Cursor.next_text h).1]

def Token.names : Token → List Text
  | .openGroup opener => opener.capture.toList
  | _ => []

theorem Cursor.note_names (token : Token) (s : Cursor) :
    (s.note token).names = s.names ++ token.names := by
  unfold Cursor.note
  cases token <;> simp [Token.names]
  split <;> rfl

theorem Cursor.next_names {s s' : Cursor} {b : Block} (h : s.next = .ok (some (b, s'))) :
    s'.names = s.names ++ b.token.names := by
  simp only [Cursor.next, bind_eq_ok] at h
  obtain ⟨⟨items, rest⟩, -, h⟩ := h
  split at h
  · cases h
    simp [Cursor.layoutBlock, Cursor.advance, Token.names]
  obtain ⟨found, -, h⟩ := bind_eq_ok.1 h
  cases found with
  | none => cases h
  | some lead =>
    obtain ⟨_, -, h⟩ := bind_eq_ok.1 h
    cases h
    exact Cursor.note_names lead.token s

theorem Cursor.Cuts.names (h : s.Cuts bs s') :
    s'.names = s.names ++ bs.flatMap (·.token.names) := by
  induction h with
  | nil => simp
  | cons h _ ih => rw [ih, Cursor.next_names h, List.flatMap_cons, List.append_assoc]

end Cuts

/-- A pattern is cut up when a cutting reaches its end with no group open. -/
theorem blocksOf_eq_ok {pattern : Text} {stream : Stream} :
    blocksOf pattern = .ok stream ↔ ∃ last : Cursor,
      Cursor.Cuts { unread := pattern } stream.blocks last ∧ last.unread = [] ∧ last.scopes = [] ∧
        stream.captures = last.captures ∧ stream.names = last.names := by
  constructor
  · intro h
    simp only [blocksOf, cutPattern] at h
    split at h <;> cases h
    next hstop hscopes =>
      exact ⟨_, Cursor.cuts_cut _, Cursor.next_eq_none.1 (Cursor.next_last_of_cut hstop), hscopes,
        rfl, rfl⟩
  · rintro ⟨last, hc, hu, hscopes, hcaptures, hnames⟩
    have hcut := hc.cut_eq (Cursor.next_eq_none.2 hu)
    simp only [blocksOf, cutPattern, hcut, hscopes]
    rw [← hcaptures, ← hnames]

/-- Nothing of a pattern is lost when it is cut up. -/
theorem text_blocksOf {pattern : Text} {stream : Stream} (h : blocksOf pattern = .ok stream) :
    stream.blocks.flatMap Block.text = pattern := by
  obtain ⟨last, hc, hu, -⟩ := blocksOf_eq_ok.1 h
  simpa [hu] using hc.text

/-- The names of a pattern are those that its blocks declare. -/
theorem names_blocksOf {pattern : Text} {stream : Stream} (h : blocksOf pattern = .ok stream) :
    stream.names = stream.blocks.flatMap (·.token.names) := by
  obtain ⟨last, hc, -, -, -, hn⟩ := blocksOf_eq_ok.1 h
  rw [hn, hc.names, List.nil_append]

/-- A name of a pattern is the one that some opener captures under. -/
theorem exists_opener_of_mem_names {pattern name : Text} {stream : Stream}
    (h : blocksOf pattern = .ok stream) (hname : name ∈ stream.names) :
    ∃ b ∈ stream.blocks, ∃ opener, b.token = .openGroup opener ∧ opener.capture = some name := by
  rw [names_blocksOf h] at hname
  obtain ⟨b, hb, hname⟩ := List.mem_flatMap.1 hname
  refine ⟨b, hb, ?_⟩
  cases ht : b.token with
  | openGroup opener =>
    rw [ht] at hname
    exact ⟨opener, rfl, Option.mem_toList.1 hname⟩
  | _ => rw [ht] at hname; cases hname

/-- No group is called by an empty name. -/
theorem names_ne_nil {pattern : Text} {stream : Stream} (h : blocksOf pattern = .ok stream) :
    ∀ name ∈ stream.names, name ≠ [] := by
  intro name hname
  obtain ⟨b, hb, opener, ht, hcapture⟩ := exists_opener_of_mem_names h hname
  exact (blocksOf_regular h b hb).token.capture opener ht name hcapture

end RegexAnatomy
