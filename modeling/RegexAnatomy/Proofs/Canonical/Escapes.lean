import RegexAnatomy.Proofs.Canonical.Runs

/-! Numeric escapes in front of a text that is read. An escape takes the literal text
behind it, but only the last unit of that text can have a quantifier, and only with
trivia before it: so the nodes that the text had without the escape are still there,
except that one run of literal text may be cut otherwise. -/

namespace RegexAnatomy

def literalNodes (w : Text) : List Node := if w = [] then [] else [.literal w]

/-- How literal text and what is repeated of it are read without an escape in front. -/
inductive Absorbs (free : Bool) (tail : List Node) : Text → Option Repetition → List Node → Prop
  | plain (run : Text) : Absorbs free tail run none (literalNodes run ++ tail)
  | repeated {start last rest : Text} {r : Repetition} (hw : UnitRun free start)
      (hu : splitUnit free (last ++ rest) = some (last, rest)) (hq : r.suffix.quantifier ≠ []) :
      Absorbs free tail (start ++ last) (some r)
        (literalNodes start ++ (quantify (.literal last) r.suffix ++ tail))

section Nodes

variable {free : Bool} {head : Node} {u v last rest : Text} {nodes tail branch : List Node}

theorem quantifyTail_none (head : Node) (w : Text) :
    quantifyTail head w {} = head :: literalNodes w := by
  unfold quantifyTail literalNodes
  split <;> simp [quantify, Node.quantified]

theorem quantifyTail_last {s : Suffix} (hw : UnitRun free u)
    (hu : splitUnit free (last ++ rest) = some (last, rest)) (hq : s.quantifier ≠ []) :
    quantifyTail head (u ++ last) s = head :: (literalNodes u ++ quantify (.literal last) s) := by
  have hne : last ≠ [] := (splitUnit_append hu).2
  have hsplit : splitLastUnit (u ++ last) = (u, last) := by
    rw [splitLastUnit_run hw hne, splitLastUnit_unit hu, List.append_nil]
  rw [quantifyTail, if_neg (by simp [hne]), if_neg hq, hsplit]
  rfl

/-- Two runs of literal text behind a node are recut into one. -/
theorem recut_literalNodes (ht : testToken head = none) (nodes : List Node) :
    Recut (head :: (literalNodes u ++ (literalNodes v ++ nodes)))
      (head :: (literalNodes (u ++ v) ++ nodes)) := by
  have spelled (w : Text) : spelledAll (literalNodes w) = w.map fun c => Node.literal [c] := by
    unfold literalNodes
    split
    next h => simp [h, spelledAll]
    next h => simp [spelledAll, Node.literal, Node.plain, Node.spelled, spelledAtom, h]
  refine .of_no_test ?_ ?_ ht
  · simp [spelledAll, spelled]
  · unfold literalNodes
    by_cases hu : u = [] <;> by_cases hv : v = [] <;> simp [hu, hv]

/-- What an escape and the literal text behind it are read as, if the escape takes that text. -/
theorem Absorbs.recut {repetition : Option Repetition} {run w : Text} (token : Token)
    (h : Absorbs free tail run repetition branch) (hw : UnitRun free w)
    (ht : testToken head = none) :
    Recut (quantifyTail head w {} ++ branch)
      (quantifyTail head (w ++ run) (token.block repetition).suffix ++ tail) := by
  rw [quantifyTail_none]
  cases h with
  | plain =>
    have hnone : (token.block none).suffix = {} := rfl
    rw [hnone, quantifyTail_none]
    exact recut_literalNodes ht tail
  | @repeated start last rest r hstart hu hq =>
    have hsuffix : (token.block (some r)).suffix = r.suffix := rfl
    rw [hsuffix, ← List.append_assoc w, quantifyTail_last (hw.append hstart) hu hq]
    simpa using recut_literalNodes ht (quantify (.literal last) r.suffix ++ tail)

end Nodes

section Absorbing

variable {g : GroupTable} {f f' : Front} {t t' : Text} {branch : List Node}
  {branches : List (List Node)}

/-- In front of the first unit that a quantifier follows. -/
theorem Reads.absorb_last {free : Bool} (hfree : f.mode.freeSpacing = free)
    (h : Reads g f.settle t (branch :: branches) f' t')
    (hend : takeUnits free (quantifierFollows free) t = ([], t)) (start : Text)
    (hstart : UnitRun free start) :
    ∃ repetition a tail,
      splitRepetition free (takeUnits free startsQuantifier t).2 = (repetition, a) ∧
      (∀ r ∈ repetition, r.IsCanonical) ∧
      Absorbs free tail (start ++ (takeUnits free startsQuantifier t).1) repetition
        (literalNodes start ++ branch) ∧
      Reads g f.settle a (tail :: branches) f' t' := by
  subst hfree
  have nothing (htake : takeUnits f.mode.freeSpacing startsQuantifier t = ([], t)) :
      ∃ repetition a tail, splitRepetition f.mode.freeSpacing
          (takeUnits f.mode.freeSpacing startsQuantifier t).2 = (repetition, a) ∧
        (∀ r ∈ repetition, r.IsCanonical) ∧
        Absorbs f.mode.freeSpacing tail
          (start ++ (takeUnits f.mode.freeSpacing startsQuantifier t).1) repetition
          (literalNodes start ++ branch) ∧
        Reads g f.settle a (tail :: branches) f' t' := by
    rw [htake]
    refine ⟨none, t, branch, splitRepetition_none h.no_quantifier.1, by simp, ?_, h⟩
    rw [List.append_nil]
    exact .plain start
  cases hu : splitUnit f.mode.freeSpacing t with
  | none => exact nothing (takeUnits_eq_nil hu)
  | some found =>
    obtain ⟨unit, rest⟩ := found
    have hq : quantifierFollows f.mode.freeSpacing rest := by
      by_contra hq
      rw [takeUnits_of_some hu, if_neg hq] at hend
      exact (splitUnit_append hu).2 (List.append_eq_nil_iff.1 (Prod.mk.inj hend).1).1
    by_cases hs : startsQuantifier rest
    · exact nothing (by rw [takeUnits_of_some hu, if_pos hs])
    -- trivia stand between the unit and its quantifier, and an escape takes the unit
    · have hnone : splitUnit f.mode.freeSpacing rest = none := by
        cases hunit : splitUnit f.mode.freeSpacing rest with
        | none => rfl
        | some =>
          rw [quantifierFollows_of_token (splitTrivia_of_splitUnit hunit)] at hq
          exact absurd hq hs
      obtain ⟨r, a, tail, hr, hc, rfl, hread⟩ := h.of_repeated hu hq
      have htake : takeUnits f.mode.freeSpacing startsQuantifier t = (unit, rest) := by
        rw [takeUnits_of_some hu, if_neg hs, takeUnits_eq_nil hnone, List.append_nil]
      rw [htake]
      exact ⟨some r, a, tail, hr, by simpa using hc, .repeated hstart (splitUnit_again hu rest)
        (hc.suffix_quantifier (quantifier_ne_nil_of_splitRepetition hr)), hread⟩

theorem Reads.absorb (h : Reads g f.settle t (branch :: branches) f' t') :
    ∃ repetition a tail, splitRepetition f.mode.freeSpacing
        (takeUnits f.mode.freeSpacing startsQuantifier t).2 = (repetition, a) ∧
      (∀ r ∈ repetition, r.IsCanonical) ∧
      Absorbs f.mode.freeSpacing tail (takeUnits f.mode.freeSpacing startsQuantifier t).1 repetition
        branch ∧
      Reads g f.settle a (tail :: branches) f' t' := by
  have hend := takeUnits_again_nil f.mode.freeSpacing (quantifierFollows f.mode.freeSpacing) t
  have hrun := unitRun_takeUnits f.mode.freeSpacing (quantifierFollows f.mode.freeSpacing) t
  have hstep : ∃ rest, branch = literalNodes
        (takeUnits f.mode.freeSpacing (quantifierFollows f.mode.freeSpacing) t).1 ++ rest ∧
      Reads g f.settle (takeUnits f.mode.freeSpacing (quantifierFollows f.mode.freeSpacing) t).2
        (rest :: branches) f' t' := by
    by_cases hnil : (takeUnits f.mode.freeSpacing (quantifierFollows f.mode.freeSpacing) t).1 = []
    · have htext := takeUnits_append f.mode.freeSpacing (quantifierFollows f.mode.freeSpacing) t
      rw [hnil, List.nil_append] at htext
      exact ⟨branch, by simp [hnil, literalNodes], htext.symm ▸ h⟩
    · have hmode : f.settle.mode.freeSpacing = f.mode.freeSpacing := rfl
      obtain ⟨tail, rfl, hread⟩ := h.of_run hmode hnil
      exact ⟨tail, by simp [hnil, literalNodes], hread⟩
  obtain ⟨rest, rfl, hread⟩ := hstep
  rw [takeUnits_startsQuantifier]
  exact hread.absorb_last rfl hend _ hrun

end Absorbing

section Escapes

variable {free : Bool} {digits tail w t : Text}

theorem splitUnit_digit {c : Char} (hc : c.isDigit) : splitUnit free (c :: t) = some ([c], t) :=
  splitUnit_boundChar (by simp [isBoundChar, hc])

theorem unitRun_digits (h : ∀ c ∈ digits, c.isDigit) (hw : UnitRun free w) :
    UnitRun free (digits ++ w) := by
  induction digits with
  | nil => exact hw
  | cons c digits ih =>
    obtain ⟨hc, hdigits⟩ := List.forall_mem_cons.1 h
    have hcut : c :: digits ++ w = [c] ++ (digits ++ w) := rfl
    rw [hcut]
    exact .cons (splitUnit_digit hc) (ih hdigits)

theorem UnitRun.of_digits (h : ∀ c ∈ digits, c.isDigit) (hw : UnitRun free (digits ++ w)) :
    UnitRun free w := by
  induction digits with
  | nil => exact hw
  | cons c digits ih =>
    obtain ⟨hc, hdigits⟩ := List.forall_mem_cons.1 h
    have hunit : splitUnit free (c :: (digits ++ w)) = some ([c], digits ++ w) := splitUnit_digit hc
    generalize hrun : c :: digits ++ w = run at hw
    cases hw with
    | nil => cases hrun
    | @cons unit rest hu hw =>
      rw [← hrun, List.cons_append, hunit] at hu
      cases hu
      exact ih hdigits hw

theorem gainsCount_digits (h : ∀ c ∈ digits, c.isDigit) (hw : gainsCount t (digits ++ w) = false) :
    gainsCount t w = false := by
  induction digits with
  | nil => exact hw
  | cons c digits ih =>
    obtain ⟨hc, hdigits⟩ := List.forall_mem_cons.1 h
    have hunit : splitUnit true ([c] ++ (digits ++ w)) = some ([c], digits ++ w) :=
      splitUnit_boundChar (by simp [isBoundChar, hc])
    exact ih hdigits (gainsCount_unit hunit hw).2

variable {g : GroupTable} {f f' : Front} {t' : Text} {branch nodes : List Node}
  {branches : List (List Node)} {span : Span}

theorem readNumericEscape_run (hdigits : ∀ c ∈ digits, c.isDigit)
    (hhead : ∀ c ∈ (tail ++ t).head?, c.isDigit = false) (htail : UnitRun free tail)
    (hcount : gainsCount t tail = false) (ht : startsQuantifier t = false) :
    readNumericEscape free (digits ++ (tail ++ t)) =
      ⟨.numericEscape ('\\' :: digits ++ (tail ++ (takeUnits free startsQuantifier t).1)),
        (takeUnits free startsQuantifier t).2, true⟩ := by
  obtain ⟨h1, h2⟩ := takeWhile_append_exact hdigits hhead
  obtain ⟨htake, hgo⟩ := takeUnits_run htail hcount (fun _ _ => rfl) ht
  simp only [readNumericEscape, h1, h2, if_neg (Bool.eq_false_iff.1 hgo), htake]

/-- If all that is in front of `more` is digits, none stands at its start. -/
theorem not_digit_of_all {more after : Text}
    (hhead : ∀ c ∈ (tail ++ (more ++ after)).head?, c.isDigit = false) (digits : Text)
    (hall : (digits ++ tail).all Char.isDigit) : ∀ d ∈ more.head?, d.isDigit = false := by
  intro d hd
  obtain ⟨more, rfl⟩ := List.head?_eq_some_iff.1 hd
  cases tail with
  | nil => exact hhead d rfl
  | cons e tail =>
    have he : e.isDigit := List.all_eq_true.1 hall e (by simp)
    rw [hhead e rfl] at he
    cases he

/-- A numeric escape, with the literal text that it has taken, in front of what is read. -/
theorem Reads.prepend_escape (h : Reads g f.settle t (branch :: branches) f' t') (hne : digits ≠ [])
    (hdigits : ∀ c ∈ digits, c.isDigit) (htail : UnitRun f.mode.freeSpacing tail)
    (hhead : ∀ c ∈ (tail ++ t).head?, c.isDigit = false)
    (hcount : gainsCount t tail = false)
    (hn : numericEscapeNodes g ('\\' :: (digits ++ tail)) span {} = .ok nodes) :
    StartsToken f.mode.freeSpacing ('\\' :: (digits ++ (tail ++ t))) ∧
      ∃ again, Recut (nodes ++ branch) again ∧
        Reads g f ('\\' :: (digits ++ (tail ++ t))) (again :: branches) f' t' := by
  have hread := readNumericEscape_run hdigits hhead htail hcount h.not_quantifier
  obtain ⟨c, digits, rfl⟩ := List.exists_cons_of_ne_nil hne
  have hc : c.isDigit := hdigits c (by simp)
  have hl : readLead f.context ('\\' :: (c :: digits ++ (tail ++ t))) =
      .ok (some (readNumericEscape f.mode.freeSpacing (c :: digits ++ (tail ++ t)))) := by
    rw [List.cons_append, readLead, readEscape_of_digit hc]
    rfl
  obtain ⟨repetition, a, rest, hs, hcanonical, habsorbs, hrest⟩ := h.absorb
  obtain ⟨text, isReference, front, run, hrun, hfront, rfl, hagain⟩ := numericEscapeNodes_append hn
  have htext := takeUnits_append f.mode.freeSpacing startsQuantifier t
  generalize takeUnits f.mode.freeSpacing startsQuantifier t = taken at *
  obtain ⟨more, after⟩ := taken
  dsimp only at hs habsorbs htext hread
  have hfrun : UnitRun f.mode.freeSpacing run := by
    refine .of_digits hfront (hrun ▸ unitRun_digits hdigits htail)
  rw [← htext] at hhead
  have hmore := not_digit_of_all hhead
  rw [hread] at hl
  have ht : StartsToken f.mode.freeSpacing ('\\' :: (c :: digits ++ (tail ++ t))) :=
    .of_shut (shut_specialEscape (by simp [isSpecialEscape, hc]))
  refine ⟨ht, _, habsorbs.recut (.numericEscape ('\\' :: (c :: digits ++ tail) ++ more)) hfrun rfl,
    .leaf ht hl hs hcanonical (.escape ?_ (hagain more _ _ (hmore (c :: digits)))) hrest⟩
  simp [Token.block]

end Escapes

end RegexAnatomy
