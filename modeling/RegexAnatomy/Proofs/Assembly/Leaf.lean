import RegexAnatomy.Proofs.Assembly

/-! What a single block puts into the tree. Apart from option constructs it is
always an atom with literal text behind it and the block's suffix on the last of
them, so two facts about attaching a suffix cover every kind of token. -/

namespace RegexAnatomy

theorem Repetition.suffix_before (r : Repetition) : r.suffix.before = r.before.map Trivia.node := by
  unfold Repetition.suffix
  dsimp only
  split <;> try rfl
  split <;> rfl

theorem Repetition.suffix_after (r : Repetition) :
    ∃ items : List Trivia, r.suffix.after = items.map Trivia.node := by
  unfold Repetition.suffix
  dsimp only
  split
  · exact ⟨[], rfl⟩
  · exact ⟨[], rfl⟩
  · split
    · exact ⟨[], rfl⟩
    · exact ⟨_, rfl⟩

theorem Block.suffix_before (b : Block) :
    ∃ items : List Trivia, b.suffix.before = items.map Trivia.node := by
  cases h : b.repetition with
  | none => exact ⟨[], by simp [Block.suffix, h]⟩
  | some r => exact ⟨r.before, by simp [Block.suffix, h, r.suffix_before]⟩

theorem Block.loose_eq_trivia (b : Block) :
    ∃ items : List Trivia, b.loose = items.map Trivia.node := by
  cases h : b.repetition with
  | none => exact ⟨b.trivia, by simp [Block.loose, Block.suffix, h]⟩
  | some r =>
    obtain ⟨items, hi⟩ := r.suffix_after
    exact ⟨items ++ b.trivia, by simp [Block.loose, Block.suffix, h, hi]⟩

theorem splitLastUnit_snd_ne_nil {t : Text} (h : t ≠ []) : (splitLastUnit t).2 ≠ [] := by
  fun_induction splitLastUnit t with
  | case1 => exact h
  | case2 => simp
  | case3 _ _ hr _ _ he ih => rw [he] at ih; exact ih hr
  | case4 => simp
  | case5 _ _ _ hr _ _ he ih => rw [he] at ih; exact ih hr

section Forall

variable {Q : Node → Prop} (b : Block) (hi : ∀ item : Trivia, Q item.node)
include hi

theorem Block.forall_mem_before : ∀ n ∈ b.suffix.before, Q n := by
  obtain ⟨items, hb⟩ := b.suffix_before
  rw [hb]
  exact List.forall_mem_map.2 fun item _ => hi item

theorem Block.forall_mem_loose : ∀ n ∈ b.loose, Q n := by
  obtain ⟨items, hl⟩ := b.loose_eq_trivia
  rw [hl]
  exact List.forall_mem_map.2 fun item _ => hi item

/-- `Q` holds of what attaching a suffix gives if it holds of trivia, of the node, with and without
the quantifier, and of the sequence that holds the node and trivia. -/
theorem forall_mem_quantify {node : Node} (hn : Q node)
    (hq : Q (node.quantified b.suffix.quantifier))
    (hs : b.suffix.quantifier ≠ [] → ∀ items : List Trivia,
      Q (.sequence (node :: items.map Trivia.node) b.suffix.quantifier .bare false)) :
    ∀ n ∈ quantify node b.suffix, Q n := by
  unfold quantify
  split
  · simpa using hq
  split
  · exact List.forall_mem_cons.2 ⟨hn, b.forall_mem_before hi⟩
  next h =>
    obtain ⟨items, hb⟩ := b.suffix_before
    rw [hb]
    exact List.forall_mem_singleton.2 (hs h items)

theorem forall_mem_quantifyTail {head : Node} {tail : Text}
    (hh : ∀ n ∈ quantify head b.suffix, Q n) (hhead : Q head)
    (hl : ∀ text ≠ [], Q (.literal text) ∧ ∀ n ∈ quantify (.literal text) b.suffix, Q n) :
    ∀ n ∈ quantifyTail head tail b.suffix, Q n := by
  unfold quantifyTail
  split
  · exact hh
  next htail =>
    split
    · exact List.forall_mem_cons.2
        ⟨hhead, List.forall_mem_cons.2 ⟨(hl tail htail).1, b.forall_mem_before hi⟩⟩
    next hq =>
      have hlast : (splitLastUnit tail).2 ≠ [] := splitLastUnit_snd_ne_nil htail
      intro n hn
      rcases List.mem_append.1 hn with hn | hn
      · rcases List.mem_cons.1 hn with rfl | hn
        · exact hhead
        · split at hn
          · cases hn
          next hstart => rw [List.mem_singleton.1 hn]; exact (hl _ hstart).1
      · exact (hl _ hlast).2 n hn

end Forall

def AtomKind.IsToken : AtomKind → Prop
  | .literal | .anchor | .charClass | .backreference => True
  | _ => False

/-- What becomes a node of its own of a numeric escape: the backslash with all the digits if they
are the number of a group, else with the octal digits in front, three at most. -/
def GroupTable.escapeHead (g : GroupTable) (text : Text) : Text :=
  let digits := (text.drop 1).takeWhile Char.isDigit
  if digits.head? ≠ some '0' ∧ g.knows digits then '\\' :: digits
  else '\\' :: (digits.take 3).takeWhile isOctalDigit

theorem GroupTable.exists_digits_of_escapeHead (g : GroupTable) (text : Text) :
    ∃ digits, g.escapeHead text = '\\' :: digits ∧ ∀ c ∈ digits, c.isDigit := by
  have hdigits : ∀ c ∈ (text.drop 1).takeWhile Char.isDigit, c.isDigit :=
    fun _ => List.mem_takeWhile_imp
  simp only [GroupTable.escapeHead]
  split
  · exact ⟨_, rfl, hdigits⟩
  · -- the octal digits are some of the first digits
    refine ⟨_, rfl, fun c hc => hdigits c ?_⟩
    exact (List.take_prefix 3 _).subset ((List.takeWhile_prefix _).subset hc)

theorem GroupTable.escapeHead_ne_nil (g : GroupTable) (text : Text) : g.escapeHead text ≠ [] := by
  obtain ⟨digits, hhead, -⟩ := g.exists_digits_of_escapeHead text
  simp [hhead]

/-- What a numeric escape refers to is a number that the table knows. -/
theorem numericEscapeNodes_eq {g : GroupTable} {text : Text} {span : Span} {s : Suffix}
    {nodes : List Node} (h : numericEscapeNodes g text span s = .ok nodes) :
    ∃ (isReference : Bool) (tail : Text), '\\' :: text.drop 1 = g.escapeHead text ++ tail ∧
      (isReference → g.knows ((g.escapeHead text).drop 1)) ∧
      nodes = quantifyTail (.reference (g.escapeHead text) isReference) tail s := by
  simp only [numericEscapeNodes] at h
  simp only [GroupTable.escapeHead]
  split at h
  next hrefers =>
    cases h
    rw [if_pos hrefers]
    exact ⟨_, _, by rw [List.cons_append, List.takeWhile_append_dropWhile], fun _ => hrefers.2, rfl⟩
  next hrefers =>
    rw [if_neg hrefers]
    split at h
    · cases h
    split at h
    · cases h
    next =>
      cases h
      refine ⟨_, _, ?_, fun hr => (Bool.and_eq_true_iff.1 hr).2, rfl⟩
      -- the octal digits are a front of the digits, which are a front of the text
      have hfront : (((text.drop 1).takeWhile Char.isDigit).take 3).takeWhile isOctalDigit <+:
          text.drop 1 :=
        (List.takeWhile_prefix _).trans ((List.take_prefix _ _).trans (List.takeWhile_prefix _))
      rw [List.cons_append, List.prefix_iff_eq_append.1 hfront]

/-- A block that yields nodes holds trivia only, or an option construct, or an atom with text
behind it. -/
theorem Block.Yields.cases {g : GroupTable} {b : Block} {nodes : List Node}
    (h : b.Yields g nodes) (hr : b.Regular) :
    (b.token = .layout ∧ nodes = []) ∨
      (∃ text, b.token = .options text ∧ nodes = [.plain text .inlineOptions]) ∨
      ∃ text kind isReference tail, b.token.IsLeaf ∧ b.token.text = text ++ tail ∧ text ≠ [] ∧
        kind.IsToken ∧ nodes = quantifyTail (.atom text kind isReference) tail b.suffix := by
  have alone (node : Node) : quantify node b.suffix = quantifyTail node [] b.suffix := by
    simp [quantifyTail]
  cases h with
  | layout h => exact .inl ⟨h, rfl⟩
  | options h => exact .inr (.inl ⟨_, h, rfl⟩)
  | atom h =>
    refine .inr (.inr ?_)
    have ht := hr.text
    cases hb : b.token <;> simp [hb, Token.atom?, Token.text] at h ht
    all_goals subst h; exact ⟨_, _, _, [], trivial, by simp [Token.text], ht, by trivial, alone _⟩
  | @reference text _ h hk =>
    have ht : text ≠ [] := by simpa [h, Token.text] using hr.text
    exact .inr (.inr ⟨text, _, _, [], by rw [h]; trivial, by simp [h, Token.text], ht, by trivial,
      alone _⟩)
  | escape h hn =>
    obtain ⟨escaped, rfl⟩ := hr.token.escape _ h
    obtain ⟨isReference, tail, ht, -, rfl⟩ := numericEscapeNodes_eq hn
    exact .inr (.inr ⟨_, .backreference, some isReference, tail, by rw [h]; exact ⟨_, rfl⟩,
      by rw [h]; exact ht, g.escapeHead_ne_nil _, by trivial, rfl⟩)

/-- `Q` holds of the nodes of a block if it holds of trivia, of option constructs, and of an atom
with and without the suffix. -/
theorem Block.Yields.forall_mem {Q : Node → Prop} {g : GroupTable} {b : Block} {nodes : List Node}
    (h : b.Yields g nodes) (hr : b.Regular) (hi : ∀ item : Trivia, Q item.node)
    (ho : ∀ text, IsOptionConstruct text → Q (.plain text .inlineOptions))
    (ha : ∀ text kind isReference, text ≠ [] → kind.IsToken → Q (.atom text kind isReference) ∧
      ∀ n ∈ quantify (.atom text kind isReference) b.suffix, Q n) : ∀ n ∈ nodes, Q n := by
  rcases h.cases hr with ⟨-, rfl⟩ | ⟨text, ht, rfl⟩ |
    ⟨text, kind, isReference, tail, -, -, hne, hk, rfl⟩
  · simp
  · exact List.forall_mem_singleton.2 (ho text (hr.token.options text ht))
  · obtain ⟨head, hhead⟩ := ha text kind isReference hne hk
    exact forall_mem_quantifyTail b hi hhead head fun text hne => ha text _ _ hne trivial

theorem quantify_eq_cons {node n : Node} {s : Suffix} {ns : List Node}
    (h : quantify node s = n :: ns) :
    (s.before = [] ∧ n = node.quantified s.quantifier) ∨ (s.quantifier = [] ∧ n = node) ∨
      n = .sequence (node :: s.before) s.quantifier .bare false := by
  unfold quantify at h
  split at h
  next hb => exact .inl ⟨hb, (List.cons.inj h).1.symm⟩
  split at h
  next hq => exact .inr (.inl ⟨hq, (List.cons.inj h).1.symm⟩)
  · exact .inr (.inr (List.cons.inj h).1.symm)

theorem quantify_ne_nil (node : Node) (s : Suffix) : quantify node s ≠ [] := by
  unfold quantify
  split
  · simp
  · split <;> simp

theorem quantifyTail_ne_nil (head : Node) (tail : Text) (s : Suffix) :
    quantifyTail head tail s ≠ [] := by
  unfold quantifyTail
  split
  · exact quantify_ne_nil head s
  · split <;> simp

/-- Every block leaves something in the tree. -/
theorem Block.Yields.ne_nil {g : GroupTable} {b : Block} {nodes : List Node} (h : b.Yields g nodes)
    (hr : b.Regular) : nodes ++ b.loose ≠ [] := by
  intro hnil
  obtain ⟨hn, hl⟩ := List.append_eq_nil_iff.1 hnil
  rcases h.cases hr with ⟨ht, -⟩ | ⟨text, -, rfl⟩ | ⟨text, kind, isReference, tail, -, -, -, -, rfl⟩
  · have : b.trivia = [] := by simpa [Block.loose] using (List.append_eq_nil_iff.1 hl).2
    exact (hr.layout ht).2 this
  · cases hn
  · exact quantifyTail_ne_nil _ _ _ hn

end RegexAnatomy
