import RegexAnatomy.Block.Stream
import RegexAnatomy.Proofs.Block.Readers

/-! What every block of a pattern is like, whatever the pattern. Nothing is ever
kept with an opener, a bar or an option construct, so the tree can leave the tail
of such a block out; an option construct and a numeric escape have a fixed shape. -/

namespace RegexAnatomy

def Token.StandsAlone : Token → Prop
  | .openParen _ | .openGroup _ | .openConditional | .options _ | .bar => True
  | _ => False

def IsOptionConstruct (text : Text) : Prop :=
  ∃ letters, (∀ c ∈ letters, isOptionChar c) ∧ text = '(' :: '?' :: letters ++ [')']

structure Token.Regular (token : Token) : Prop where
  options : ∀ text, token = .options text → IsOptionConstruct text
  escape : ∀ text, token = .numericEscape text → ∃ rest, text = '\\' :: rest
  capture : ∀ opener, token = .openGroup opener → ∀ name ∈ opener.capture, name ≠ []

structure Lead.Regular (lead : Lead) : Prop where
  alone : lead.token.StandsAlone → lead.repeatable = false
  notLayout : lead.token ≠ .layout
  token : lead.token.Regular

structure Block.Regular (b : Block) : Prop where
  alone : b.token.StandsAlone → b.repetition = none ∧ b.trivia = []
  layout : b.token = .layout → b.repetition = none ∧ b.trivia ≠ []
  text : b.token ≠ .layout → b.token.text ≠ []
  token : b.token.Regular

theorem Block.Regular.text_of_standsAlone {b : Block} (hb : b.Regular) (ha : b.token.StandsAlone) :
    b.text = b.token.text := by
  simp [Block.text, hb.alone ha, triviaText]

theorem Lead.regular_openGroup {opener : GroupOpener} (h : ∀ name ∈ opener.capture, name ≠ [])
    (rest : Text) : Lead.Regular ⟨.openGroup opener, rest, false⟩ :=
  ⟨fun _ => rfl, by simp, by simp, by simp, by rintro _ ho; cases ho; exact h⟩

theorem readNamedOpener_regular {mark close : Char} {t : Text} {lead : Lead}
    (h : readNamedOpener mark close t = .ok lead) : lead.Regular := by
  obtain ⟨capture, u, balance, rest, written, hc, -, -, -, rfl⟩ := readNamedOpener_eq_ok.1 h
  refine Lead.regular_openGroup (fun name hn => ?_) _
  obtain rfl : capture = some name := hn
  obtain ⟨-, -, hne, -⟩ := readGroupName_eq_ok.1 hc
  exact hne

theorem readOptions_regular {t : Text} {lead : Lead} (h : readOptions t = .ok lead) :
    lead.Regular := by
  obtain ⟨letters, rest, hletters, ⟨-, rfl⟩ | ⟨-, rfl⟩⟩ := readOptions_eq_ok.1 h
  · refine ⟨fun _ => rfl, by simp, fun text ht => ?_, by simp, by simp⟩
    cases ht
    exact ⟨letters, hletters, rfl⟩
  · exact Lead.regular_openGroup (by simp) _

theorem readConstruct_regular {t : Text} {lead : Lead} (h : readConstruct t = .ok lead) :
    lead.Regular := by
  cases behindQuestion_of_readConstruct h with
  | sign => exact Lead.regular_openGroup (by simp) _
  | angled _ h | quoted h => exact readNamedOpener_regular h
  | options _ h => exact readOptions_regular h
  | conditional => exact ⟨fun _ => rfl, by simp, by simp, by simp, by simp⟩

def Token.IsLeaf : Token → Prop
  | .anchor _ | .charClass _ | .namedReference .. | .literal _ => True
  | .numericEscape text => ∃ rest, text = '\\' :: rest
  | _ => False

theorem Token.IsLeaf.not_standsAlone {token : Token} (h : token.IsLeaf) : ¬ token.StandsAlone := by
  cases token <;> simp_all [Token.IsLeaf, Token.StandsAlone]

theorem Lead.regular_of_isLeaf {lead : Lead} (h : lead.token.IsLeaf) : lead.Regular := by
  refine ⟨fun ha => ?_, fun hl => ?_, fun text ht => ?_, fun text ht => ?_, fun opener ho => ?_⟩
  · cases ht : lead.token <;> simp_all [Token.IsLeaf, Token.StandsAlone]
  · simp [hl, Token.IsLeaf] at h
  · simp [ht, Token.IsLeaf] at h
  · simpa [ht, Token.IsLeaf] using h
  · simp [ho, Token.IsLeaf] at h

theorem readLiteral_isLeaf {free : Bool} {t : Text} {lead : Lead}
    (h : readLiteral free t = .ok lead) : lead.token.IsLeaf := by
  obtain ⟨unit, rest, -, ⟨-, rfl⟩ | ⟨-, rfl⟩⟩ := readLiteral_eq_ok.1 h <;> trivial

theorem readNumericEscape_isLeaf (free : Bool) (t : Text) :
    (readNumericEscape free t).token.IsLeaf := by
  unfold readNumericEscape
  dsimp only
  split <;> exact ⟨_, rfl⟩

theorem readEscape_isLeaf {free : Bool} {t : Text} {lead : Lead}
    (h : readEscape free t = .ok lead) : lead.token.IsLeaf := by
  cases behindBackslash_of_readEscape h with
  | numeric => exact readNumericEscape_isLeaf free _
  | literal hliteral => exact readLiteral_isLeaf hliteral
  | _ => trivial

theorem readLead_regular {ctx : Context} {t : Text} {lead : Lead}
    (h : readLead ctx t = .ok (some lead)) : lead.Regular := by
  cases atFront_of_readLead h with
  | construct h => exact readConstruct_regular h
  | paren | close | bar => exact ⟨by simp [Token.StandsAlone], by simp, by simp, by simp, by simp⟩
  | anchor | charClass => exact Lead.regular_of_isLeaf trivial
  | escape h => exact Lead.regular_of_isLeaf (readEscape_isLeaf h)
  | literal _ h => exact Lead.regular_of_isLeaf (readLiteral_isLeaf h)

theorem Cursor.next_regular {s s' : Cursor} {b : Block} (h : s.next = .ok (some (b, s'))) :
    b.Regular := by
  simp only [Cursor.next, bind_eq_ok] at h
  obtain ⟨⟨items, rest⟩, -, h⟩ := h
  split at h
  next hi =>
    cases h
    exact ⟨by simp [Cursor.layoutBlock, Token.StandsAlone], fun _ => ⟨rfl, hi⟩,
      by simp [layoutBlock], by simp [layoutBlock], by simp [layoutBlock], by simp [layoutBlock]⟩
  next =>
    simp only [bind_eq_ok] at h
    obtain ⟨found, hl, h⟩ := h
    cases found with
    | none => cases h
    | some lead =>
      have hlead := readLead_regular hl
      simp only [bind_eq_ok] at h
      obtain ⟨⟨repetition, items, rest⟩, ht, h⟩ := h
      cases h
      refine ⟨fun ha => ?_, fun hb => absurd hb hlead.notLayout,
        fun _ => (readLead_covers hl).2, hlead.token⟩
      simp only [Lead.readTail, hlead.alone ha, Bool.false_eq_true, if_false] at ht
      cases ht; exact ⟨rfl, rfl⟩

theorem Cursor.cut_regular (s : Cursor) : ∀ b ∈ s.cut.blocks, b.Regular := by
  fun_induction Cursor.cut s with
  | case1 => simp
  | case2 => simp
  | case3 s b s' h _ cutting ih =>
    intro c hc
    rcases List.mem_cons.1 hc with rfl | hc
    · exact Cursor.next_regular h
    · exact ih c hc

theorem blocksOf_regular {pattern : Text} {stream : Stream} (h : blocksOf pattern = .ok stream) :
    ∀ b ∈ stream.blocks, b.Regular := by
  simp only [blocksOf] at h
  split at h <;> cases h
  exact Cursor.cut_regular _

end RegexAnatomy
