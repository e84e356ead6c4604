import RegexAnatomy.Proofs.Block.Whole

/-! The blocks of a pattern cover it from its first byte on, without a gap and
without an overlap, up to its end or up to the place that cannot be read. The
positions in the blocks are byte offsets, so a span is good only when it starts
and ends between two characters. -/

namespace RegexAnatomy

/-- The text before and behind a byte offset; `none` inside a character and past the end. -/
def splitAtByte : Text → Nat → Option (Text × Text)
  | t, 0 => some ([], t)
  | [], _ + 1 => none
  | c :: rest, n + 1 =>
    if c.utf8Size ≤ n + 1 then
      (splitAtByte rest (n + 1 - c.utf8Size)).map fun (before, behind) => (c :: before, behind)
    else none

/-- What a span covers of a text; `none` when it does not fall on characters of the text. -/
def Span.slice (s : Span) (t : Text) : Option Text := do
  if s.stop < s.start then none
  let (_, behind) ← splitAtByte t s.start
  let (covered, _) ← splitAtByte behind s.length
  return covered

theorem splitAtByte_append (before behind : Text) :
    splitAtByte (before ++ behind) (utf8Length before) = some (before, behind) := by
  induction before with
  | nil => cases behind <;> rfl
  | cons c before ih =>
    have hc := Char.utf8Size_pos c
    obtain ⟨n, hn⟩ : ∃ n, c.utf8Size + utf8Length before = n + 1 :=
      ⟨c.utf8Size + utf8Length before - 1, by omega⟩
    have hrest : n + 1 - c.utf8Size = utf8Length before := by omega
    simp [splitAtByte, hn, hrest, ih, show c.utf8Size ≤ n + 1 by omega]

theorem Span.slice_append (before covered behind : Text) :
    Span.slice ⟨utf8Length before, utf8Length before + utf8Length covered⟩
      (before ++ (covered ++ behind)) = some covered := by
  simp [Span.slice, Span.length, splitAtByte_append]

/-- The accented letter takes two bytes. -/
example : Span.slice ⟨1, 3⟩ ['é', 'a'] = none ∧ Span.slice ⟨2, 3⟩ ['é', 'a'] = some ['a'] := by
  decide

theorem utf8Length_pos {t : Text} (h : t ≠ []) : 0 < utf8Length t := by
  obtain ⟨c, rest, rfl⟩ := List.exists_cons_of_ne_nil h
  have := Char.utf8Size_pos c
  simp; omega

def Block.marked (b : Block) : Text :=
  if b.token = .layout then triviaText b.trivia else b.token.text

structure Block.LiesAt (p : Text) (start : Nat) (b : Block) : Prop where
  advances : 0 < utf8Length b.text
  starts : b.span.start = start
  token : b.token ≠ .layout → b.span.slice p = some b.token.text
  layout : b.token = .layout →
    b.span.slice p = some (triviaText b.trivia) ∧ b.text = triviaText b.trivia

theorem Cursor.next_span {s s' : Cursor} {b : Block} (h : s.next = .ok (some (b, s'))) :
    b.span = s.spanOf b.marked := by
  simp only [Cursor.next, bind_eq_ok] at h
  obtain ⟨⟨items, rest⟩, -, h⟩ := h
  split at h
  · cases h
    simp [Block.marked, Cursor.layoutBlock]
  obtain ⟨found, hl, h⟩ := bind_eq_ok.1 h
  cases found with
  | none => cases h
  | some lead =>
    obtain ⟨⟨repetition, items, rest⟩, -, h⟩ := bind_eq_ok.1 h
    cases h
    simp [Block.marked, (readLead_regular hl).notLayout]

theorem Block.Regular.text_layout {b : Block} (hb : b.Regular) (hl : b.token = .layout) :
    b.text = triviaText b.trivia := by
  simp [Block.text, hl, Token.text, (hb.layout hl).1]

/-- The marked text is the front of a block. -/
theorem Block.Regular.exists_text_eq {b : Block} (hb : b.Regular) :
    ∃ tail, b.text = b.marked ++ tail := by
  by_cases hl : b.token = .layout
  · exact ⟨[], by simp [hb.text_layout hl, Block.marked, hl]⟩
  · exact ⟨_, by simp only [Block.text, Block.marked, hl, if_false, List.append_assoc]; rfl⟩

/-- The next block stands where the text passed so far ends. -/
theorem Cursor.next_liesAt {s s' : Cursor} {b : Block} {passed : Text}
    (h : s.next = .ok (some (b, s'))) (hp : s.position = utf8Length passed) :
    b.LiesAt (passed ++ s.unread) (utf8Length passed) := by
  obtain ⟨ht, hne, -⟩ := s.next_text h
  have hb := Cursor.next_regular h
  have hspan := Cursor.next_span h
  rw [Cursor.spanOf, hp] at hspan
  have hslice : b.span.slice (passed ++ s.unread) = some b.marked := by
    obtain ⟨tail, htail⟩ := hb.exists_text_eq
    rw [hspan, ← ht, htail, List.append_assoc, Span.slice_append]
  refine ⟨utf8Length_pos hne, by rw [hspan], fun hl => ?_, fun hl => ⟨?_, hb.text_layout hl⟩⟩
  · rw [hslice, Block.marked, if_neg hl]
  · rw [hslice, Block.marked, if_pos hl]

theorem Cursor.Cuts.position {s s' : Cursor} {bs : List Block} (h : s.Cuts bs s') :
    s'.position = s.position + utf8Length (bs.flatMap Block.text) := by
  induction h with
  | nil => rfl
  | cons h _ ih => rw [ih, (Cursor.next_text h).2.2, List.flatMap_cons, utf8Length_append]; omega

theorem Cursor.Cuts.liesAt {s s' : Cursor} {before after : List Block} {b : Block} {passed : Text}
    (h : s.Cuts (before ++ b :: after) s') (hp : s.position = utf8Length passed) :
    b.LiesAt (passed ++ s.unread) (utf8Length passed + utf8Length (before.flatMap Block.text)) := by
  induction before generalizing s passed with
  | nil =>
    cases h with
    | cons hn _ => exact Cursor.next_liesAt hn hp
  | cons first before ih =>
    cases h with
    | cons hn hrest =>
      obtain ⟨ht, -, hpos⟩ := s.next_text hn
      rw [hp, ← utf8Length_append] at hpos
      have hb := ih hrest hpos
      rw [List.append_assoc, ht, utf8Length_append, Nat.add_assoc] at hb
      simpa using hb

theorem Cursor.exists_fault_of_cut {s : Cursor} {e : PatternError} (h : s.cut.stop = some e) :
    ∃ fault, s.cut.last.next = .error fault ∧
      e = fault.locate s.cut.last.position s.cut.last.unread := by
  fun_induction Cursor.cut s with
  | case1 s fault hn => exact ⟨fault, hn, (Option.some.inj h).symm⟩
  | case2 => cases h
  | case3 s b s' _ _ cutting ih => exact ih h

/-- The cutting lost nothing of the pattern, and every block is where it says. -/
structure Cutting.Partitions (c : Cutting) (p : Text) : Prop where
  text : c.blocks.flatMap Block.text ++ c.last.unread = p
  position : c.last.position = utf8Length (c.blocks.flatMap Block.text)
  /-- Without an error, the blocks make up the whole pattern. -/
  complete : c.stop = none → c.last.unread = []
  /-- An error is that of the block that would have come next. -/
  stopped : ∀ e, c.stop = some e → ∃ fault, c.last.next = .error fault ∧
    e = fault.locate c.last.position c.last.unread
  liesAt : ∀ before b after, c.blocks = before ++ b :: after →
    b.LiesAt p (utf8Length (before.flatMap Block.text))

/-- A pattern is cut up without a loss, whether the cutting reaches its end or not. -/
theorem cutPattern_partitions (p : Text) : (cutPattern p).Partitions p := by
  have hc : Cursor.Cuts { unread := p } (cutPattern p).blocks (cutPattern p).last :=
    Cursor.cuts_cut _
  refine ⟨hc.text, by simpa using hc.position, fun hstop => ?_, fun e he => ?_,
    fun before b after hsplit => ?_⟩
  · exact Cursor.next_eq_none.1 (Cursor.next_last_of_cut hstop)
  · exact Cursor.exists_fault_of_cut he
  · rw [hsplit] at hc
    simpa using @Cursor.Cuts.liesAt _ _ _ _ _ [] hc rfl

end RegexAnatomy
