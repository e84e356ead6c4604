import RegexAnatomy.Proofs.Canonical.Strays

/-! Literal text in front of a text that is read. It runs into the literal text that
stands there, and so does the text behind a numeric escape, unless the two make up
a quantifier or the digits run on: what is read is recut, and nothing else changes. -/

namespace RegexAnatomy

inductive UnitRun (free : Bool) : Text → Prop
  | nil : UnitRun free []
  | cons {unit w : Text} (hu : splitUnit free (unit ++ w) = some (unit, w)) (hw : UnitRun free w) :
      UnitRun free (unit ++ w)

/-- In front of `ahead` a quantifier starts in the literal text. -/
def gainsCount (ahead : Text) : Text → Bool
  | [] => false
  | '\\' :: _ :: text => gainsCount ahead text
  | c :: text => startsQuantifier (c :: text ++ ahead) || gainsCount ahead text

/-- In front of `ahead`, neither does a quantifier start in the token nor do the digits of an escape
run on. -/
def Token.staysApart (ahead : Text) : Token → Bool
  | .literal text => !gainsCount ahead text
  | .numericEscape text =>
    !gainsCount ahead text && !((text.drop 1).all Char.isDigit && startsWithDigit ahead)
  | _ => true

section Units

variable {free : Bool} {unit w t ahead : Text} {stop : Text → Bool}

theorem splitUnit_shape (h : splitUnit free t = some (unit, w)) :
    (∃ c, unit = ['\\', c]) ∨ ∃ c, unit = [c] ∧ c ≠ '\\' := by
  unfold splitUnit at h
  split at h
  · cases h
  · cases h
  · split at h <;> cases h
    exact .inl ⟨_, rfl⟩
  next c rest hne1 hne2 =>
    have hc : c ≠ '\\' := by
      rintro rfl
      cases rest with
      | nil => exact hne1 rfl rfl
      | cons d rest => exact hne2 d rest rfl rfl
    split at h
    · cases h
    · split at h <;> cases h
      exact .inr ⟨c, rfl, hc⟩

theorem gainsCount_unit (hu : splitUnit free (unit ++ w) = some (unit, w))
    (h : gainsCount ahead (unit ++ w) = false) :
    startsQuantifier (unit ++ w ++ ahead) = false ∧ gainsCount ahead w = false := by
  rcases splitUnit_shape hu with ⟨c, rfl⟩ | ⟨c, rfl, hc⟩
  · exact ⟨rfl, h⟩
  · simp only [List.singleton_append] at h ⊢
    rw [gainsCount.eq_def] at h
    split at h
    next he => cases he
    next he => cases he; exact absurd rfl hc
    next he =>
      cases he
      simpa using h

theorem unitRun_takeUnits (free : Bool) (stop : Text → Bool) (t : Text) :
    UnitRun free (takeUnits free stop t).1 := by
  fun_induction takeUnits free stop t with
  | case1 => exact .nil
  | case2 => exact .nil
  | case3 t unit rest h hl hs more after he ih =>
    rw [he] at ih
    exact .cons (splitUnit_again h more) ih

theorem UnitRun.append {u : Text} (hw : UnitRun free w) (hu : UnitRun free u) :
    UnitRun free (w ++ u) := by
  induction hw with
  | nil => exact hu
  | @cons unit w hunit hw ih =>
    rw [List.append_assoc]
    exact .cons (splitUnit_again hunit (w ++ u)) ih

/-- A run of units goes on with the units behind it. `hstop` says that `stop` sees the quantifiers
in front of a token and no others. -/
theorem takeUnits_run (hw : UnitRun free w) (hcount : gainsCount t w = false)
    (hstop : ∀ u, splitTrivia free u = none → stop u = startsQuantifier u) (ht : stop t = false) :
    takeUnits free stop (w ++ t) =
      (w ++ (takeUnits free stop t).1, (takeUnits free stop t).2) ∧ stop (w ++ t) = false := by
  induction hw with
  | nil => exact ⟨rfl, ht⟩
  | @cons unit w hu hw ih =>
    obtain ⟨hq, hcount⟩ := gainsCount_unit hu hcount
    obtain ⟨htake, hgo⟩ := ih hcount
    have hu' : splitUnit free (unit ++ w ++ t) = some (unit, w ++ t) := by
      rw [List.append_assoc]
      exact splitUnit_again hu (w ++ t)
    refine ⟨?_, by rw [hstop _ (splitTrivia_of_splitUnit hu'), hq]⟩
    rw [takeUnits_of_some hu', if_neg (by simp [hgo]), htake, List.append_assoc]

theorem quantifierFollows_of_token (h : splitTrivia free t = none) :
    quantifierFollows free t = startsQuantifier t := by
  rw [quantifierFollows, takeTrivia_eq_nil h]

/-- Nothing more is taken where the taking has come to its end. -/
theorem takeUnits_again_nil (free : Bool) (stop : Text → Bool) (t : Text) :
    takeUnits free stop (takeUnits free stop t).2 = ([], (takeUnits free stop t).2) := by
  fun_induction takeUnits free stop t with
  | case1 t h => exact takeUnits_eq_nil h
  | case2 t unit rest h hl hs => rw [takeUnits_of_some h, if_pos hs]
  | case3 t unit rest h hl hs more after he ih =>
    rw [he] at ih
    exact ih

/-- A run that stops in front of the trivia before a quantifier is the front of a run that does
not. -/
theorem takeUnits_startsQuantifier (free : Bool) (t : Text) :
    takeUnits free startsQuantifier t =
      ((takeUnits free (quantifierFollows free) t).1 ++
          (takeUnits free startsQuantifier (takeUnits free (quantifierFollows free) t).2).1,
        (takeUnits free startsQuantifier (takeUnits free (quantifierFollows free) t).2).2) := by
  fun_induction takeUnits free (quantifierFollows free) t with
  | case1 t h => rfl
  | case2 t unit rest h hl hs => rfl
  | case3 t unit rest h hl hs more after he ih =>
    rw [he] at ih
    have hq : ¬ startsQuantifier rest := fun hq => hs (quantifierFollows_of_startsQuantifier hq)
    rw [takeUnits_of_some h, if_neg hq, ih, List.append_assoc]

theorem splitLastUnit_cons {c : Char} (hc : c ≠ '\\') (t : Text) :
    splitLastUnit (c :: t) =
      if t = [] then ([], [c]) else (c :: (splitLastUnit t).1, (splitLastUnit t).2) := by
  rw [splitLastUnit.eq_def]
  split
  next he => cases he
  next he => cases he; exact absurd rfl hc
  next he =>
    cases he
    rfl

theorem splitLastUnit_run {u : Text} (hw : UnitRun free w) (hne : u ≠ []) :
    splitLastUnit (w ++ u) = (w ++ (splitLastUnit u).1, (splitLastUnit u).2) := by
  induction hw with
  | nil => rfl
  | @cons unit w hu hw ih =>
    have hrest : w ++ u ≠ [] := by simp [hne]
    rcases splitUnit_shape hu with ⟨c, rfl⟩ | ⟨c, rfl, hc⟩
    · simp only [List.cons_append, List.nil_append, splitLastUnit, if_neg hrest, ih]
    · simp only [List.cons_append, List.nil_append, splitLastUnit_cons hc, if_neg hrest, ih]

theorem splitLastUnit_unit (h : splitUnit free t = some (unit, w)) :
    splitLastUnit unit = ([], unit) := by
  rcases splitUnit_shape h with ⟨c, rfl⟩ | ⟨c, rfl, hc⟩
  · rfl
  · rw [splitLastUnit_cons hc, if_pos rfl]

end Units

section Literals

variable {g : GroupTable} {f f' : Front} {t t' w unit rest : Text} {branch : List Node}
  {branches : List (List Node)}

theorem Front.note_leaf {token : Token} (h : token.IsLeaf) (f : Front) :
    f.note token = f.settle := by
  cases token <;> first | rfl | exact False.elim h

theorem Block.Yields.eq_of_literal {b : Block} {nodes : List Node} (h : b.Yields g nodes)
    (ht : b.token = .literal w) : nodes = quantify (.literal w) b.suffix := by
  cases h with
  | atom h =>
    rw [ht] at h
    cases h
    rfl
  | layout h | options h | reference h | escape h => cases ht.symm.trans h

theorem Reads.not_quantifier (h : Reads g f t branches f' t') : startsQuantifier t = false := by
  refine Bool.eq_false_iff.2 fun hq => ?_
  have hfollows : quantifierFollows f.mode.freeSpacing t := quantifierFollows_of_startsQuantifier hq
  rw [h.no_quantifier.1] at hfollows
  cases hfollows

/-- At literal text a reading goes on with that text. -/
theorem Reads.of_unit (h : Reads g f t (branch :: branches) f' t')
    (hu : splitUnit f.mode.freeSpacing t = some (unit, rest)) :
    ∃ lead repetition a nodes tail, readLiteral f.mode.freeSpacing t = .ok lead ∧
      lead.splitTail f.mode.freeSpacing = (repetition, a) ∧ (∀ r ∈ repetition, r.IsCanonical) ∧
      (lead.token.block repetition).Yields g nodes ∧ branch = nodes ++ tail ∧
      Reads g f.settle a (tail :: branches) f' t' := by
  have literal {lead : Lead} (hl : readLead f.context t = .ok (some lead)) :
      readLiteral f.mode.freeSpacing t = .ok lead := by
    rw [readLead_of_unit hu (startsQuantifier_of_readLead hl)] at hl
    exact eq_ok_of_map_some hl
  cases h with
  | stop ht =>
    rw [ht.shut.unit] at hu
    cases hu
  | bar =>
    rw [(shut_operator (by decide)).unit] at hu
    cases hu
  | trivia hs =>
    rw [splitTrivia_of_splitUnit hu] at hs
    cases hs
  | @group _ _ _ _ _ _ _ lead _ _ _ _ _ _ _ ht hl ho =>
    exact absurd (Token.standsAlone_of_opening ho) (readLiteral_isLeaf (literal hl)).not_standsAlone
  | @leaf _ _ _ _ _ lead repetition nodes tail _ ht hl hs hc hy h =>
    have hnote := Front.note_leaf (readLiteral_isLeaf (literal hl)) f
    rw [hnote] at hs h
    exact ⟨lead, repetition, _, nodes, tail, literal hl, hs, hc, hy, rfl, h⟩

/-- The run of literal text at which a reading stands is its first leaf. -/
theorem Reads.of_run (h : Reads g f t (branch :: branches) f' t') {free : Bool}
    (hfree : f.mode.freeSpacing = free) (hne : (takeUnits free (quantifierFollows free) t).1 ≠ []) :
    ∃ tail, branch = .literal (takeUnits free (quantifierFollows free) t).1 :: tail ∧
      Reads g f.settle (takeUnits free (quantifierFollows free) t).2 (tail :: branches) f' t' := by
  subst hfree
  cases hu : splitUnit f.mode.freeSpacing t with
  | none =>
    rw [takeUnits_eq_nil hu] at hne
    exact absurd rfl hne
  | some found =>
    obtain ⟨unit, rest⟩ := found
    rw [takeUnits_of_some hu] at hne ⊢
    split at hne
    · exact absurd rfl hne
    next hq =>
      rw [if_neg hq]
      obtain ⟨lead, repetition, a, nodes, tail, hl, hs, -, hy, rfl, hread⟩ := h.of_unit hu
      simp only [readLiteral, hu, if_neg hq] at hl
      cases hl
      cases hs
      rw [hy.eq_of_literal rfl]
      exact ⟨tail, rfl, hread⟩

theorem Reads.of_repeated (h : Reads g f t (branch :: branches) f' t')
    (hu : splitUnit f.mode.freeSpacing t = some (unit, rest))
    (hq : quantifierFollows f.mode.freeSpacing rest) :
    ∃ r a tail, splitRepetition f.mode.freeSpacing rest = (some r, a) ∧ r.IsCanonical ∧
      branch = quantify (.literal unit) r.suffix ++ tail ∧
      Reads g f.settle a (tail :: branches) f' t' := by
  obtain ⟨lead, repetition, a, nodes, tail, hl, hs, hc, hy, rfl, hread⟩ := h.of_unit hu
  simp only [readLiteral, hu, if_pos hq] at hl
  cases hl
  replace hs : splitRepetition f.mode.freeSpacing rest = (repetition, a) := hs
  cases repetition with
  | none =>
    simp only [splitRepetition] at hs
    split at hs
    next hnone => simp [quantifierFollows, startsQuantifier, hnone] at hq
    next => split at hs <;> cases hs
  | some r =>
    rw [hy.eq_of_literal rfl]
    exact ⟨r, a, tail, hs, hc r rfl, rfl, hread⟩

theorem testToken_literal (w : Text) : testToken (.literal w) = none := rfl

/-- Literal text in front of what is read runs into the literal text there. -/
theorem Reads.prepend_run (h : Reads g f.settle t (branch :: branches) f' t')
    (hw : UnitRun f.mode.freeSpacing w) (hne : w ≠ []) (hcount : gainsCount t w = false) :
    StartsToken f.mode.freeSpacing (w ++ t) ∧ ∃ again, Recut (.literal w :: branch) again ∧
      Reads g f (w ++ t) (again :: branches) f' t' := by
  obtain _ | @⟨unit, w, hu, hw⟩ := hw
  · exact absurd rfl hne
  obtain ⟨hq, hcount⟩ := gainsCount_unit hu hcount
  obtain ⟨htake, hgo⟩ := takeUnits_run hw hcount (fun u => quantifierFollows_of_token)
    h.no_quantifier.1
  have hu' : splitUnit f.mode.freeSpacing (unit ++ w ++ t) = some (unit, w ++ t) := by
    rw [List.append_assoc]
    exact splitUnit_again hu (w ++ t)
  have ht : StartsToken f.mode.freeSpacing (unit ++ w ++ t) :=
    ⟨splitTrivia_of_splitUnit hu', startsComment_of_splitUnit hu'⟩
  generalize hmore : takeUnits f.mode.freeSpacing (quantifierFollows f.mode.freeSpacing) t = taken
    at htake
  obtain ⟨more, after⟩ := taken
  have hl : readLead f.context (unit ++ w ++ t) =
      .ok (some ⟨.literal (unit ++ (w ++ more)), after, false⟩) := by
    rw [readLead_of_unit hu' hq]
    simp only [readLiteral, Front.context, hu', if_neg (Bool.eq_false_iff.1 hgo), htake]
    rfl
  have leaf {tail : List Node} (h : Reads g f.settle after (tail :: branches) f' t') :
      Reads g f (unit ++ w ++ t) ((.literal (unit ++ (w ++ more)) :: tail) :: branches) f' t' :=
    .leaf ht hl rfl (by simp) (.atom rfl) h
  refine ⟨ht, ?_⟩
  -- without literal text at the start of `t` the run is a leaf of its own
  by_cases hnil : more = []
  · subst hnil
    obtain rfl : after = t := by
      have htext := takeUnits_append f.mode.freeSpacing (quantifierFollows f.mode.freeSpacing) t
      rwa [hmore] at htext
    refine ⟨_, ?_, leaf h⟩
    rw [List.append_nil]
    exact .refl _
  · have hmode : f.settle.mode.freeSpacing = f.mode.freeSpacing := rfl
    have hrun := h.of_run hmode (by rw [hmore]; exact hnil)
    rw [hmore] at hrun
    obtain ⟨tail, rfl, hread⟩ := hrun
    refine ⟨_, .of_no_test ?_ (by simp) (testToken_literal _), leaf hread⟩
    simp [spelledAll, Node.literal, Node.plain, Node.spelled, spelledAtom, hnil, hne]

end Literals

end RegexAnatomy
