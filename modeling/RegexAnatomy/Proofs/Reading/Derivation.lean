import RegexAnatomy.Proofs.Assembly.GroupTest
import RegexAnatomy.Proofs.Reading.Lead

/-! Reading as one relation between a text and what is built from it, a whole group
at a time. The scanner and the builder work with a stack of open groups and with
blocks, and where a block ends depends on the trivia behind it; here neither is
left, so that a reading can be taken apart at a bar and put together again, and
the groups that a change adds can be read in place. -/

namespace RegexAnatomy

/-- What has been read so far, as far as it decides how to go on, but for the open groups. -/
structure Front where
  mode : Mode := {}
  captures : Nat := 0
  names : List Text := []
  atTest : Bool := false

namespace Front

def context (f : Front) : Context :=
  { mode := f.mode, captures := f.captures, atTest := f.atTest, insideGroup := false }

def note (token : Token) (f : Front) : Front :=
  let f := { f with atTest := token = .openConditional }
  match token with
  | .openParen capture =>
    { f with captures := if capture.isSome then f.captures + 1 else f.captures }
  | .openGroup opener =>
    { f with
      names := f.names ++ opener.capture.toList
      mode := if opensOptions opener.text then f.mode.apply opener.text else f.mode }
  | .options text => { f with mode := f.mode.apply text }
  | _ => f

/-- Any token but the opener of a conditional has the test of a conditional behind it. -/
def settle (f : Front) : Front := { f with atTest := false }

def leave (inside : Front) (f : Front) : Front := { inside with mode := f.mode, atTest := false }

end Front

def IsStop (t : Text) : Prop := ∀ c ∈ t.head?, c = ')' ∨ c = '|'

def Lead.splitTail (free : Bool) (lead : Lead) : Option Repetition × Text :=
  if lead.repeatable then splitRepetition free lead.rest else (none, lead.rest)

def Token.block (token : Token) (repetition : Option Repetition) : Block :=
  ⟨token, ⟨0, 0⟩, repetition, []⟩

/-- Reading `t` up to where `t'` is left gives the branches, with all quantifiers canonical. -/
inductive Reads (g : GroupTable) : Front → Text → List (List Node) → Front → Text → Prop
  | stop {f : Front} {t : Text} (ht : IsStop t) : Reads g f t [[]] f t
  | bar {f f' : Front} {t t' : Text} {branches : List (List Node)}
      (h : Reads g f.settle t branches f' t') : Reads g f ('|' :: t) ([] :: branches) f' t'
  | trivia {f f' : Front} {t a t' : Text} {item : Trivia} {branch : List Node}
      {branches : List (List Node)} (hs : splitTrivia f.mode.freeSpacing t = some (item, a))
      (h : Reads g f.settle a (branch :: branches) f' t') :
      Reads g f t ((item.node :: branch) :: branches) f' t'
  | leaf {f f' : Front} {t a t' : Text} {lead : Lead} {repetition : Option Repetition}
      {nodes branch : List Node} {branches : List (List Node)}
      (ht : StartsToken f.mode.freeSpacing t) (hl : readLead f.context t = .ok (some lead))
      (hs : lead.splitTail (f.note lead.token).mode.freeSpacing = (repetition, a))
      (hc : ∀ r ∈ repetition, r.IsCanonical) (hy : (lead.token.block repetition).Yields g nodes)
      (h : Reads g (f.note lead.token) a (branch :: branches) f' t') :
      Reads g f t ((nodes ++ branch) :: branches) f' t'
  | group {f inside f' : Front} {t a b t' : Text} {lead : Lead} {opening : Opening} {start : Nat}
      {level : Level} {node : Node} {repetition : Option Repetition} {branch : List Node}
      {branches : List (List Node)} (ht : StartsToken f.mode.freeSpacing t)
      (hl : readLead f.context t = .ok (some lead)) (ho : lead.token.opening? = some opening)
      (hi : Reads g (f.note lead.token) lead.rest level.branches inside (')' :: a))
      (hn : opening.node g start level = .ok node)
      (hs : splitRepetition f.mode.freeSpacing a = (repetition, b))
      (hc : ∀ r ∈ repetition, r.IsCanonical)
      (h : Reads g (inside.leave f) b (branch :: branches) f' t') :
      Reads g f t ((quantify node (Token.close.block repetition).suffix ++ branch) :: branches)
        f' t'

section Basic

variable {g : GroupTable} {f f' : Front} {t t' : Text} {branches : List (List Node)}

theorem IsStop.shut {free : Bool} (h : IsStop t) : Shut free t := by
  cases t with
  | nil => exact shut_nil
  | cons c t =>
    rcases h c rfl with rfl | rfl
    · exact shut_operator (by decide)
    · exact shut_operator (by decide)

theorem StartsToken.of_shut {free : Bool} (h : Shut free t) : StartsToken free t :=
  ⟨h.trivia, h.comment⟩

/-- Nothing is read at a quantifier, nor at a comment that is never closed. -/
theorem Reads.no_quantifier (h : Reads g f t branches f' t') :
    quantifierFollows f.mode.freeSpacing t = false ∧
      startsComment (takeTrivia f.mode.freeSpacing t).2 = false := by
  have token {f : Front} {t : Text} (ht : StartsToken f.mode.freeSpacing t)
      (hq : startsQuantifier t = false) : quantifierFollows f.mode.freeSpacing t = false ∧
        startsComment (takeTrivia f.mode.freeSpacing t).2 = false := by
    rw [quantifierFollows, takeTrivia_eq_nil ht.trivia]
    exact ⟨hq, ht.comment⟩
  induction h with
  | @stop f t ht =>
    have hshut : Shut f.mode.freeSpacing t := ht.shut
    exact token (.of_shut hshut) hshut.quantifier
  | bar => exact token (.of_shut (shut_operator (by decide))) rfl
  | trivia hs _ ih =>
    rw [quantifierFollows, Alike.takeTrivia_of_some hs]
    exact ih
  | leaf ht hl => exact token ht (startsQuantifier_of_readLead hl)
  | group ht hl => exact token ht (startsQuantifier_of_readLead hl)

theorem Lead.splitTail_append {free : Bool} {lead : Lead} {repetition : Option Repetition}
    {a : Text} (h : lead.splitTail free = (repetition, a)) :
    (repetition.map Repetition.text).getD [] ++ a = lead.rest := by
  unfold Lead.splitTail at h
  split at h
  · exact splitRepetition_append h
  · cases h
    rfl

theorem Reads.length_le (h : Reads g f t branches f' t') : t'.length ≤ t.length := by
  induction h with
  | stop => exact Nat.le_refl _
  | bar _ ih =>
    rw [List.length_cons]
    omega
  | trivia hs _ ih =>
    have := splitTrivia_length hs
    omega
  | leaf _ hl hs _ _ _ ih =>
    have hlead := congrArg List.length (readLead_covers hl).1
    have htail := congrArg List.length (Lead.splitTail_append hs)
    rw [List.length_append] at hlead htail
    omega
  | group _ hl _ _ _ hs _ _ ihi ih =>
    have hlead := congrArg List.length (readLead_covers hl).1
    have htail := congrArg List.length (splitRepetition_append hs)
    rw [List.length_append] at hlead htail
    rw [List.length_cons] at ihi
    omega

theorem Reads.ne_nil (h : Reads g f t branches f' t') : branches ≠ [] := by
  cases h <;> simp

/-- What can be read fits behind an opener, unless a test has to follow. -/
theorem fitsBefore_of_reads {lead : Lead} {opening : Opening}
    (ho : lead.token.opening? = some opening) (hne : opening ≠ .conditional)
    (h : Reads g (f.note lead.token) t branches f' t') (free : Bool) : lead.FitsBefore free t := by
  unfold Lead.FitsBefore
  cases ht : lead.token <;> rw [ht] at ho <;> cases ho
  case openParen =>
    intro hq
    obtain ⟨rest, rfl⟩ := List.head?_eq_some_iff.1 hq
    have hfollows := h.no_quantifier.1
    rw [quantifierFollows_of_startsQuantifier rfl] at hfollows
    cases hfollows
  case openGroup => trivial
  case openConditional => exact absurd rfl hne

end Basic

section Bars

variable {g : GroupTable} {f f' inside : Front} {t t' a : Text} {branch : List Node}
  {branches : List (List Node)}

/-- A reading of several branches comes apart at the first bar. -/
theorem Reads.split (h : Reads g f t (branch :: branches) f' t') (hne : branches ≠ []) :
    ∃ inside a, Reads g f t [branch] inside ('|' :: a) ∧
      Reads g inside.settle a branches f' t' := by
  generalize hb : branch :: branches = found at h
  induction h generalizing branch with
  | stop => cases hb; exact absurd rfl hne
  | bar h =>
    cases hb
    exact ⟨_, _, .stop (by simp [IsStop]), h⟩
  | trivia hs h ih =>
    cases hb
    obtain ⟨inside, a, h1, h2⟩ := ih rfl
    exact ⟨inside, a, .trivia hs h1, h2⟩
  | leaf ht hl hs hc hy h ih =>
    cases hb
    obtain ⟨inside, a, h1, h2⟩ := ih rfl
    exact ⟨inside, a, .leaf ht hl hs hc hy h1, h2⟩
  | group ht hl ho hi hn hs hc h ihi ih =>
    cases hb
    obtain ⟨inside, a, h1, h2⟩ := ih rfl
    exact ⟨inside, a, .group ht hl ho hi hn hs hc h1, h2⟩

theorem Reads.join (h : Reads g f t [branch] inside ('|' :: a))
    (h' : Reads g inside.settle a branches f' t') : Reads g f t (branch :: branches) f' t' := by
  generalize hb : [branch] = found at h
  generalize ha : '|' :: a = rest at h
  induction h generalizing branch with
  | stop => cases hb; subst ha; exact .bar h'
  | bar h =>
    cases hb
    exact absurd rfl h.ne_nil
  | trivia hs h ih => cases hb; exact .trivia hs (ih h' rfl ha)
  | leaf ht hl hs hc hy h ih => cases hb; exact .leaf ht hl hs hc hy (ih h' rfl ha)
  | group ht hl ho hi hn hs hc h ihi ih =>
    cases hb
    exact .group ht hl ho hi hn hs hc (ih h' rfl ha)

end Bars

section Canonical

variable {r : Repetition} {repetition : Option Repetition}

theorem Token.loose_block (token : Token) (h : ∀ r ∈ repetition, r.IsCanonical) :
    (token.block repetition).loose = [] :=
  Block.loose_of_canonical h

/-- A canonical quantifier is written after its node as it stood in the text. -/
theorem renderAll_quantify_block (h : ∀ r ∈ repetition, r.IsCanonical) (token : Token)
    (node : Node) : renderAll (quantify node (token.block repetition).suffix) =
      node.render ++ (repetition.map Repetition.text).getD [] := by
  rw [renderAll_quantify]
  cases repetition with
  | none => simp [Block.suffix, Token.block]
  | some r =>
    have hr := r.render_suffix
    rw [(h r rfl).suffix_after, (h r rfl).text_eq, renderAll_nil, List.append_nil] at hr
    simp [Block.suffix, Token.block, ← hr]

theorem quantifier_ne_nil_of_splitRepetition {free : Bool} {t a : Text}
    (h : splitRepetition free t = (some r, a)) : r.quantifier ≠ [] := by
  simp only [splitRepetition] at h
  split at h
  · cases h
  next hq => split at h <;> cases h <;> exact splitQuantifier_ne_nil hq

/-- A group stays one node under the quantifier behind it. -/
theorem exists_quantify_block {free : Bool} {t a : Text}
    (hs : splitRepetition free t = (repetition, a)) (h : ∀ r ∈ repetition, r.IsCanonical)
    (token : Token) (node : Node) :
    ∃ repeated, quantify node (token.block repetition).suffix = [repeated] := by
  cases repetition with
  | none => exact ⟨node, by simp [quantify, Block.suffix, Token.block, Node.quantified]⟩
  | some r =>
    have hq := (h r rfl).suffix_quantifier (quantifier_ne_nil_of_splitRepetition hs)
    have hsuffix : (token.block (some r)).suffix = r.suffix := rfl
    rw [hsuffix, quantify]
    by_cases hb : r.suffix.before = []
    · exact ⟨_, if_pos hb⟩
    · exact ⟨_, (if_neg hb).trans (if_neg hq)⟩

end Canonical

section Parts

variable {g : GroupTable} {f f' : Front} {t t' : Text} {branches : List (List Node)}

theorem regular_block {ctx : Context} {lead : Lead} {free : Bool} {repetition : Option Repetition}
    {a : Text} (hl : readLead ctx t = .ok (some lead))
    (hs : lead.splitTail free = (repetition, a)) : (lead.token.block repetition).Regular := by
  have hlead := readLead_regular hl
  refine ⟨fun ha => ⟨?_, rfl⟩, fun ht => absurd ht hlead.notLayout, fun _ => (readLead_covers hl).2,
    hlead.token⟩
  rw [Lead.splitTail, hlead.alone ha] at hs
  exact (Prod.mk.inj hs).1.symm

theorem Reads.isUnit (h : Reads g f t branches f' t') :
    ∀ branch ∈ branches, ∀ n ∈ branch, n.IsUnit := by
  induction h with
  | stop => simp
  | bar _ ih => simpa using ih
  | trivia hs h ih =>
    obtain ⟨h1, h2⟩ := List.forall_mem_cons.1 ih
    exact List.forall_mem_cons.2 ⟨List.forall_mem_cons.2 ⟨.trivia _, h1⟩, h2⟩
  | leaf ht hl hs hc hy h ih =>
    obtain ⟨h1, h2⟩ := List.forall_mem_cons.1 ih
    have hnodes := hy.isUnit (regular_block hl hs)
    exact List.forall_mem_cons.2 ⟨List.forall_mem_append.2 ⟨hnodes, h1⟩, h2⟩
  | group ht hl ho hi hn hs hc h ihi ih =>
    obtain ⟨h1, h2⟩ := List.forall_mem_cons.1 ih
    have hnode := (Node.Repeatable.group (Opening.isGroup_node hn)).isUnit_quantify
    exact List.forall_mem_cons.2 ⟨List.forall_mem_append.2 ⟨hnode _, h1⟩, h2⟩

end Parts

end RegexAnatomy
