import RegexAnatomy.Block.Coverage

/-! The blocks of a pattern, cut off from left to right under the options in
force. The text of each block and what is still unread make up what was unread
before it, so the cutting loses nothing and comes to an end. -/

namespace RegexAnatomy

structure Scope where
  start : Nat
  saved : Mode
  deriving DecidableEq

structure Cursor where
  position : Nat := 0
  unread : Text
  mode : Mode := {}
  /-- The open groups, innermost first. -/
  scopes : List Scope := []
  captures : Nat := 0
  /-- The declared names in order of appearance, repeated ones included. -/
  names : List Text := []
  /-- The parenthesis of a conditional's test comes next. -/
  atTest : Bool := false
  deriving DecidableEq

def Cursor.context (s : Cursor) : Context :=
  { mode := s.mode, captures := s.captures, atTest := s.atTest, insideGroup := !s.scopes.isEmpty }

def Cursor.note (token : Token) (s : Cursor) : Cursor :=
  let s := { s with atTest := token = .openConditional }
  match token with
  | .openParen capture =>
    { s with
      captures := if capture.isSome then s.captures + 1 else s.captures
      scopes := ⟨s.position, s.mode⟩ :: s.scopes }
  | .openGroup opener =>
    { s with
      names := s.names ++ opener.capture.toList
      scopes := ⟨s.position, s.mode⟩ :: s.scopes
      mode := if opensOptions opener.text then s.mode.apply opener.text else s.mode }
  | .openConditional => { s with scopes := ⟨s.position, s.mode⟩ :: s.scopes }
  | .options text => { s with mode := s.mode.apply text }
  | .close =>
    match s.scopes with
    | [] => s
    | scope :: outer => { s with mode := scope.saved, scopes := outer }
  | _ => s

def Cursor.advance (s : Cursor) (taken rest : Text) : Cursor :=
  { s with position := s.position + utf8Length taken, unread := rest }

def Cursor.spanOf (s : Cursor) (taken : Text) : Span :=
  ⟨s.position, s.position + utf8Length taken⟩

def Cursor.layoutBlock (s : Cursor) (items : List Trivia) : Block :=
  ⟨.layout, s.spanOf (triviaText items), none, items⟩

def Lead.readTail (free : Bool) (lead : Lead) :
    Except Fault (Option Repetition × List Trivia × Text) :=
  if lead.repeatable then readRepetition free lead.rest else .ok (none, [], lead.rest)

/-- The next block and the cursor behind it; `none` at the end. -/
def Cursor.next (s : Cursor) : Except Fault (Option (Block × Cursor)) := do
  let (items, rest) ← readTrivia s.mode.freeSpacing s.unread
  if items ≠ [] then
    let block := s.layoutBlock items
    return some (block, { s with atTest := false }.advance block.text rest)
  match ← readLead s.context s.unread with
  | none => return none
  | some lead =>
    let noted := s.note lead.token
    let (repetition, items, rest) ← lead.readTail noted.mode.freeSpacing
    let block := ⟨lead.token, s.spanOf lead.token.text, repetition, items⟩
    return some (block, noted.advance block.text rest)

@[simp] theorem Cursor.note_position (token : Token) (s : Cursor) :
    (s.note token).position = s.position := by
  unfold Cursor.note; dsimp only; split <;> try rfl
  split <;> rfl

theorem Lead.readTail_append {free : Bool} {lead : Lead} {rest : Text}
    {repetition : Option Repetition} {items : List Trivia}
    (h : lead.readTail free = .ok (repetition, items, rest)) :
    (repetition.map Repetition.text).getD [] ++ triviaText items ++ rest = lead.rest := by
  unfold Lead.readTail at h
  split at h
  · exact readRepetition_append h
  · cases h; simp [triviaText]

/-- The block is cut off the front, and the position moves by its length. -/
theorem Cursor.next_text {s s' : Cursor} {block : Block} (h : s.next = .ok (some (block, s'))) :
    block.text ++ s'.unread = s.unread ∧ block.text ≠ [] ∧
      s'.position = s.position + utf8Length block.text := by
  unfold Cursor.next at h
  cases ht : readTrivia s.mode.freeSpacing s.unread with
  | error => simp [ht, bind, Except.bind] at h
  | ok found =>
    obtain ⟨items, rest⟩ := found
    simp only [ht, bind, Except.bind] at h
    split at h
    next hi =>
      cases h
      have hne := triviaText_ne_nil_of_readTrivia ht hi
      have ht := readTrivia_append ht
      exact ⟨by simpa [Block.text, Cursor.layoutBlock, Token.text, Cursor.advance] using ht,
        by simpa [Block.text, Cursor.layoutBlock, Token.text] using hne, rfl⟩
    next =>
      cases hl : readLead s.context s.unread with
      | error => simp [hl] at h
      | ok lead =>
        cases lead with
        | none => simp [hl] at h; cases h
        | some lead =>
          obtain ⟨hl', hne⟩ := readLead_covers hl
          cases hr : lead.readTail (s.note lead.token).mode.freeSpacing with
          | error => simp [hl, hr] at h
          | ok tail =>
            obtain ⟨repetition, items, rest⟩ := tail
            simp only [hl, hr] at h
            cases h
            have hr := Lead.readTail_append hr
            refine ⟨?_, by simp [Block.text, hne], by simp [Cursor.advance]⟩
            rw [← hl', ← hr]; simp [Block.text, Cursor.advance]

theorem Cursor.next_length {s s' : Cursor} {block : Block}
    (h : s.next = .ok (some (block, s'))) : s'.unread.length < s.unread.length := by
  obtain ⟨ht, hne, -⟩ := s.next_text h
  have := List.length_pos_iff.2 hne
  rw [← ht]; simp; omega

/-- The blocks up to the end, or up to a place that cannot be read. -/
structure Cutting where
  blocks : List Block
  stop : Option PatternError
  /-- The cursor behind the last block. -/
  last : Cursor

def Cursor.cut (s : Cursor) : Cutting :=
  match h : s.next with
  | .error fault => ⟨[], some (fault.locate s.position s.unread), s⟩
  | .ok none => ⟨[], none, s⟩
  | .ok (some (block, s')) =>
    have := Cursor.next_length h
    let cutting := s'.cut
    { cutting with blocks := block :: cutting.blocks }
termination_by s.unread.length

structure Stream where
  blocks : List Block
  captures : Nat
  names : List Text
  deriving DecidableEq

def cutPattern (pattern : Text) : Cutting := Cursor.cut { unread := pattern }

/-- The blocks of a pattern in which every group is closed. -/
def blocksOf (pattern : Text) : Except PatternError Stream :=
  let cutting := cutPattern pattern
  match cutting.stop, cutting.last.scopes with
  | some error, _ => .error error
  | none, scope :: _ => .error (.malformed scope.start .unclosedGroup)
  | none, [] => .ok ⟨cutting.blocks, cutting.last.captures, cutting.last.names⟩

end RegexAnatomy
