import RegexAnatomy.Proofs.Reading.Blocks

/-! What has been built from the blocks so far, while groups are open. The opener of
every open group is among the blocks, and what is kept of a group is put together
from the blocks behind its opener; so the enclosures of the assembly are the openers
that are still open, and what has been read of a conditional starts with its test. -/

namespace RegexAnatomy

def Block.nest (b : Block) (opened : List Block) : List Block :=
  if b.token.opening?.isSome then b :: opened
  else if b.token = .close then opened.tail
  else opened

/-- The openers that the blocks leave open, innermost first. -/
def openers (bs : List Block) : List Block := bs.foldl (fun opened b => b.nest opened) []

@[simp] theorem openers_append (bs : List Block) (b : Block) :
    openers (bs ++ [b]) = b.nest (openers bs) := by
  simp [openers]

theorem Block.nest_opening {b : Block} {opening : Opening} (h : b.token.opening? = some opening)
    (opened : List Block) : b.nest opened = b :: opened := by
  simp [Block.nest, h]

theorem Block.nest_close {b : Block} (h : b.token = .close) (opened : List Block) :
    b.nest opened = opened.tail := by
  simp [Block.nest, h, Token.opening?]

theorem Block.nest_other {b : Block} (ho : b.token.opening? = none) (hc : b.token ≠ .close)
    (opened : List Block) : b.nest opened = opened := by
  simp [Block.nest, ho, hc]

/-- What the parenthesis of a test can be. It does not capture. -/
def Token.CanTest : Token → Prop
  | .openParen capture => capture = none
  | .openGroup _ | .openConditional | .options _ => True
  | _ => False

/-- The blocks are built into the assembly, with every open group's level built from the blocks
behind its opener. -/
inductive Stands (g : GroupTable) : List Block → Assembly → Prop
  | root {bs : List Block} {level : Level} (h : Assembles g bs level.branches) :
      Stands g bs ⟨level, []⟩
  | inside {bs inner : List Block} {opener : Block} {opening : Opening} {level : Level}
      {a : Assembly} (h : Stands g bs a) (ho : opener.token.opening? = some opening)
      (hi : Assembles g inner level.branches) :
      Stands g (bs ++ opener :: inner)
        ⟨level, ⟨opening, opener.span.start, a.level⟩ :: a.enclosures⟩

section Run

variable {g : GroupTable} {bs cs : List Block} {a a' : Assembly} {b : Block} {branch : List Node}
  {branches : List (List Node)}

/-- Behind blocks, further blocks go on with the last branch. -/
theorem Assembles.append {found : List (List Node)} (h : Assembles g bs found)
    (hc : Assembles g cs (branch :: branches)) :
    ∀ {ended current}, found = ended ++ [current] →
      Assembles g (bs ++ cs) (ended ++ (current ++ branch) :: branches) := by
  -- the first branch is either the last one too, or is passed by
  have split {first current : List Node} {rest ended : List (List Node)}
      (h : first :: rest = ended ++ [current]) :
      (ended = [] ∧ first = current ∧ rest = []) ∨
        ∃ more, ended = first :: more ∧ rest = more ++ [current] := by
    cases ended with
    | nil => exact .inl (by simpa using h)
    | cons d ended =>
      obtain ⟨rfl, rfl⟩ := List.cons.inj h
      exact .inr ⟨ended, rfl, rfl⟩
  induction h with
  | nil =>
    intro ended current he
    rcases split he with ⟨rfl, rfl, -⟩ | ⟨more, rfl, hm⟩
    · exact hc
    · simp at hm
  | @leaf b nodes bs first rest hb h ih =>
    intro ended current he
    rcases split he with ⟨rfl, rfl, rfl⟩ | ⟨more, rfl, rfl⟩
    · have hrest := Assembles.leaf hb (@ih [] _ rfl)
      simpa using hrest
    · exact .leaf hb (@ih (first :: more) _ rfl)
  | bar hb h ih =>
    intro ended current he
    rcases split he with ⟨-, -, rfl⟩ | ⟨more, rfl, rfl⟩
    · exact absurd rfl h.ne_nil
    · exact .bar hb (ih rfl)
  | @group opener closer opening inner bs level node first rest ho hi hcl hn h ihi ih =>
    intro ended current he
    rcases split he with ⟨rfl, rfl, rfl⟩ | ⟨more, rfl, rfl⟩
    · have hrest := Assembles.group ho hi hcl hn (@ih [] _ rfl)
      simpa using hrest
    · have hrest := Assembles.group ho hi hcl hn (@ih (first :: more) _ rfl)
      simpa using hrest

theorem Stands.extend (h : Stands g bs a) (hc : Assembles g cs (branch :: branches))
    (he : a.Extends branch branches a') : Stands g (bs ++ cs) a' := by
  obtain ⟨level', enclosures'⟩ := a'
  obtain ⟨henclosures, hbranches⟩ := he
  dsimp only at henclosures hbranches
  subst henclosures
  cases h with
  | root h =>
    refine .root ?_
    rw [hbranches]
    exact h.append hc rfl
  | inside h ho hi =>
    rw [List.append_assoc, List.cons_append]
    refine .inside h ho ?_
    rw [hbranches]
    exact hi.append hc rfl

/-- One block more, and the assembly stands as before. -/
theorem Stands.push (h : Stands g bs a) (hb : b.Regular) (hp : a.push g b = .ok a') :
    Stands g (bs ++ [b]) a' := by
  rcases push_cases hp with ⟨nodes, hy⟩ | hbar | ⟨opening, ho⟩ | hclose
  · rw [push_of_yields hy] at hp
    cases hp
    exact h.extend (.leaf hy .nil) (Assembly.Extends.refl _).of_append
  · rw [push_of_bar hb hbar] at hp
    cases hp
    exact h.extend (.bar hbar .nil) (Assembly.Extends.refl _).of_splitBranch
  · rw [push_of_opening hb ho] at hp
    cases hp
    exact .inside h ho .nil
  · obtain ⟨e, outer, node, henclosures, hn, rfl⟩ := (push_close_eq_ok hclose).1 hp
    cases h with
    | root => cases henclosures
    | @inside bs inner opener opening level a₀ h ho hi =>
      cases henclosures
      have hgroup := Assembles.group ho hi hclose hn .nil
      rw [List.append_assoc]
      exact h.extend hgroup (Assembly.Extends.refl _).of_append

theorem Stands.pushAll (h : Stands g bs a) (hr : ∀ b ∈ cs, b.Regular)
    (hp : cs.foldlM (Assembly.push g) a = .ok a') : Stands g (bs ++ cs) a' := by
  induction cs generalizing bs a with
  | nil =>
    cases hp
    simpa using h
  | cons b cs ih =>
    obtain ⟨hb, hcs⟩ := List.forall_mem_cons.1 hr
    obtain ⟨a₁, hpush, hp⟩ := pushAll_cons.1 hp
    simpa using ih (h.push hb hpush) hcs hp

theorem stands_of_pushAll (hr : ∀ b ∈ bs, b.Regular)
    (hp : bs.foldlM (Assembly.push g) {} = .ok a) : Stands g bs a := by
  have hstart : Stands g [] {} := .root .nil
  exact hstart.pushAll hr hp

/-- What is put together leaves no group open. -/
theorem Assembles.foldl_nest (h : Assembles g bs branches) (opened : List Block) :
    bs.foldl (fun opened b => b.nest opened) opened = opened := by
  induction h generalizing opened with
  | nil => rfl
  | leaf hb h ih => rw [List.foldl_cons, Block.nest_other hb.token_ne.1 hb.token_ne.2, ih]
  | bar hb h ih =>
    rw [List.foldl_cons, Block.nest_other (by simp [hb, Token.opening?]) (by simp [hb]), ih]
  | group ho hi hc hn h ihi ih =>
    rw [List.cons_append, List.foldl_cons, List.foldl_append, Block.nest_opening ho, ihi,
      List.foldl_cons, Block.nest_close hc, List.tail_cons, ih]

theorem Stands.openers_inside {inner : List Block} {opener : Block} {opening : Opening}
    (ho : opener.token.opening? = some opening) (hi : Assembles g inner branches)
    (bs : List Block) : openers (bs ++ opener :: inner) = opener :: openers bs := by
  rw [openers, List.foldl_append, List.foldl_cons, hi.foldl_nest, Block.nest_opening ho]
  rfl

def Assembly.Frames (opened : List Block) (a : Assembly) : Prop :=
  a.enclosures.map (fun e => (some e.opening, e.start)) =
    opened.map fun b => (b.token.opening?, b.span.start)

theorem Stands.frames (h : Stands g bs a) : a.Frames (openers bs) := by
  induction h with
  | root h => exact (congrArg (List.map _) (h.foldl_nest [])).symm
  | inside h ho hi ih =>
    rw [Assembly.Frames, Stands.openers_inside ho hi, List.map_cons, List.map_cons, ih, ho]

/-- The innermost enclosure was opened by one of the blocks, and the blocks behind it make up its
level. -/
theorem Stands.exists_opener {e : Enclosure} {outer : List Enclosure} (h : Stands g bs a)
    (ha : a.enclosures = e :: outer) :
    ∃ outside opener inner, bs = outside ++ opener :: inner ∧
      opener.token.opening? = some e.opening ∧ opener.span.start = e.start ∧
        Assembles g inner a.level.branches := by
  cases h with
  | root => cases ha
  | @inside outside inner opener opening level a h ho hi =>
    cases ha
    exact ⟨outside, opener, inner, rfl, ho, rfl, hi⟩

end Run

/-- The blocks and the node of a test: an option construct, or a group with the quantifier that
stands behind it. -/
inductive IsTest (g : GroupTable) : List Block → Node → Prop
  | options {b : Block} {text : Text} (h : b.token = .options text) :
      IsTest g [b] (.plain text .inlineOptions)
  | group {opener closer : Block} {opening : Opening} {inner : List Block} {level : Level}
      {node test : Node} {more : List Node} (ho : opener.token.opening? = some opening)
      (hi : Assembles g inner level.branches) (hc : closer.token = .close)
      (hn : opening.node g opener.span.start level = .ok node)
      (hq : quantify node closer.suffix = test :: more) :
      IsTest g (opener :: inner ++ [closer]) test

/-- Some group is open; and what has been read of a conditional starts with the test that is
written right behind its opener. -/
structure Assembly.CanClose (g : GroupTable) (before : List Block) (a : Assembly) : Prop where
  opened : a.enclosures ≠ []
  test : ∀ e ∈ a.enclosures.head?, e.opening = .conditional →
    ∃ outer opener tested more test yes others,
      before = outer ++ opener :: (tested ++ more) ∧ opener ∈ (openers before).head? ∧
        IsTest g tested test ∧ a.level.branches = (test :: yes) :: others

section Close

variable {g : GroupTable} {bs : List Block} {a : Assembly}

/-- Blocks that start with what can be a test start with a test. -/
theorem Assembles.exists_isTest {inner : List Block} {branches : List (List Node)}
    (h : Assembles g inner branches) (ht : ∃ b ∈ inner.head?, b.token.CanTest) :
    ∃ tested more test yes others, inner = tested ++ more ∧ IsTest g tested test ∧
      branches = (test :: yes) :: others := by
  obtain ⟨first, hfirst, ht⟩ := ht
  cases h with
  | nil => cases hfirst
  | @leaf b nodes bs branch branches hb h =>
    cases hfirst
    have hne := hb.token_ne
    have htext : ∃ text, first.token = .options text := by
      cases hbt : first.token <;> simp_all [Token.CanTest, Token.opening?]
    obtain ⟨text, htext⟩ := htext
    cases hb with
    | options ho => exact ⟨[first], bs, _, _, _, rfl, .options ho, rfl⟩
    | layout ho | reference ho | escape ho => cases htext.symm.trans ho
    | atom ho => rw [htext] at ho; cases ho
  | bar hb h =>
    cases hfirst
    rw [hb] at ht
    exact ht.elim
  | @group opener closer opening inner bs level node branch branches ho hi hc hn h =>
    obtain ⟨test, more, hq⟩ := List.exists_cons_of_ne_nil (quantify_ne_nil node closer.suffix)
    refine ⟨opener :: inner ++ [closer], bs, test, more ++ closer.loose ++ branch, branches,
      by simp, .group ho hi hc hn hq, by simp [hq]⟩

theorem Token.eq_openConditional {token : Token} (h : token.opening? = some .conditional) :
    token = .openConditional := by
  cases token <;> cases h
  rfl

/-- In front of a closing parenthesis everything is there to close a group. -/
theorem Stands.canClose (h : Stands g bs a) (hopen : openers bs ≠ [])
    (htest : ∀ before b after, bs = before ++ b :: after → b ∈ (openers bs).head? →
      b.token = .openConditional → ∃ c ∈ after.head?, c.token.CanTest) : a.CanClose g bs := by
  cases h with
  | root h => exact absurd (h.foldl_nest []) hopen
  | @inside bs inner opener opening level a h ho hi =>
    refine ⟨by simp, fun e he hcond => ?_⟩
    cases he
    dsimp only at hcond
    subst hcond
    have hopeners := Stands.openers_inside ho hi bs
    obtain ⟨tested, more, test, yes, others, rfl, hisTest, hbranches⟩ :=
      hi.exists_isTest
        (htest bs opener inner rfl (by simp [hopeners]) (Token.eq_openConditional ho))
    exact ⟨bs, opener, tested, more, test, yes, others, rfl, by simp [hopeners], hisTest, hbranches⟩

end Close

section Refused

variable {g : GroupTable} {bs : List Block} {a : Assembly} {b : Block} {error : PatternError}

/-- All that a block can be refused for: a reference to no group, or what shows of a conditional
when it closes. -/
inductive Assembly.Refuses (g : GroupTable) (a : Assembly) (b : Block) : PatternError → Prop
  | name {text name : Text} (ht : b.token = .namedReference text name)
      (hg : g.knows name = false) : Refuses g a b (.undefinedGroup b.span.stop name)
  | number {text digits : Text} (ht : b.token = .numericEscape text)
      (hdigits : (text.drop 1).takeWhile Char.isDigit = digits) (hzero : digits.head? ≠ some '0')
      (hg : g.knows digits = false) (hlength : digits.length = 1) :
      Refuses g a b (.undefinedGroup b.span.stop digits)
  | escape {text digits : Text} (ht : b.token = .numericEscape text)
      (hdigits : (text.drop 1).takeWhile Char.isDigit = digits) (hzero : digits.head? ≠ some '0')
      (hg : g.knows digits = false) (hoctal : (digits.take 3).takeWhile isOctalDigit = []) :
      Refuses g a b (.badNumericEscape (b.span.start + 1) ((text.drop 1).headD '\\'))
  | branches {e : Enclosure} {outer : List Enclosure} (ht : b.token = .close)
      (ha : a.enclosures = e :: outer) (he : e.opening = .conditional)
      (hcount : 2 < a.level.branches.length) : Refuses g a b (.tooManyBranches e.start)
  | test {e : Enclosure} {outer : List Enclosure} {test : Node} {yes : List Node}
      {others : List (List Node)} {token : Text} (ht : b.token = .close)
      (ha : a.enclosures = e :: outer) (he : e.opening = .conditional)
      (hlevel : a.level.branches = (test :: yes) :: others) (htoken : testToken test = some token)
      (hd : startsWithDigit token) (hg : g.resolve token = none) :
      Refuses g a b (.undefinedGroup (e.start + 3 + utf8Length token) token)

/-- Digits that are neither a reference nor octal. -/
theorem numericEscapeNodes_eq_error {text : Text} {span : Span} {s : Suffix}
    (h : numericEscapeNodes g text span s = .error error) :
    ∃ digits, (text.drop 1).takeWhile Char.isDigit = digits ∧ digits.head? ≠ some '0' ∧
      g.knows digits = false ∧ (digits.length = 1 ∧ error = .undefinedGroup span.stop digits ∨
        (digits.take 3).takeWhile isOctalDigit = [] ∧
          error = .badNumericEscape (span.start + 1) ((text.drop 1).headD '\\')) := by
  simp only [numericEscapeNodes] at h
  refine ⟨_, rfl, ?_⟩
  generalize (text.drop 1).takeWhile Char.isDigit = digits at h
  split at h
  · cases h
  next hrefers =>
  split at h
  next hsingle =>
    cases h
    exact ⟨hsingle.1, by simpa [hsingle.1] using hrefers, .inl ⟨hsingle.2, rfl⟩⟩
  split at h <;> cases h
  next hoctal =>
    -- a zero would be octal
    have hzero : digits.head? ≠ some '0' := by
      intro hhead
      obtain ⟨rest, rfl⟩ := List.head?_eq_some_iff.1 hhead
      cases hoctal
    exact ⟨hzero, by simpa [hzero] using hrefers, .inr ⟨hoctal, rfl⟩⟩

theorem testCondition_eq_error {start : Nat} {test : Node}
    (h : testCondition g start test = .error error) :
    ∃ token, testToken test = some token ∧ startsWithDigit token ∧ g.resolve token = none ∧
      error = .undefinedGroup (start + 3 + utf8Length token) token := by
  unfold testCondition at h
  split at h
  · cases h
  next token htoken =>
    split at h
    · cases h
    next hg =>
      split at h <;> cases h
      next hd => exact ⟨token, htoken, hd, hg, rfl⟩

/-- A conditional that starts with a test is refused for its branches or for the test. -/
theorem conditional_opening_eq_error {start : Nat} {level : Level} {test : Node} {yes : List Node}
    {others : List (List Node)} (hlevel : level.branches = (test :: yes) :: others)
    (h : Opening.conditional.node g start level = .error error) :
    2 < level.branches.length ∧ error = .tooManyBranches start ∨
      ∃ token, testToken test = some token ∧ startsWithDigit token ∧ g.resolve token = none ∧
        error = .undefinedGroup (start + 3 + utf8Length token) token := by
  have of_condition {no : Option (List Node)}
      (h : conditionalNode g start test yes no = .error error) :
      testCondition g start test = .error error := by
    rcases bind_eq_error.1 h with h | ⟨condition, -, h⟩
    · exact h
    · cases h
  simp only [Opening.node, hlevel] at h
  rcases others with - | ⟨no, - | ⟨more, others⟩⟩
  · exact .inr (testCondition_eq_error (of_condition h))
  · exact .inr (testCondition_eq_error (of_condition h))
  · cases h
    exact .inl ⟨by simp [hlevel], rfl⟩

/-- What is refused where everything is there to close a group. -/
theorem refuses_of_push (h : b.token = .close → a.CanClose g bs) (hp : a.push g b = .error error) :
    a.Refuses g b error := by
  simp only [Assembly.push] at hp
  rcases bind_eq_error.1 hp with hp | ⟨a₁, -, hp⟩
  · unfold Assembly.take at hp
    cases ht : b.token with
    | close =>
      obtain ⟨hopened, htest⟩ := h ht
      rw [ht] at hp
      rcases bind_eq_error.1 hp with hp | ⟨⟨node, a₁⟩, -, hp⟩
      · simp only [Assembly.leave] at hp
        split at hp
        next he => exact absurd he hopened
        next e outer ha =>
          rcases bind_eq_error.1 hp with hp | ⟨node, -, hp⟩
          · cases he : e.opening with
            | bracket | group => rw [he] at hp; cases hp
            | conditional =>
              obtain ⟨-, -, -, -, test, yes, others, -, -, -, hlevel⟩ := htest e (by simp [ha]) he
              rw [he] at hp
              rcases conditional_opening_eq_error hlevel hp with
                ⟨hcount, rfl⟩ | ⟨token, htoken, hd, hg, rfl⟩
              · exact .branches ht ha he hcount
              · exact .test ht ha he hlevel htoken hd hg
          · cases hp
      · cases hp
    | numericEscape text =>
      rw [ht] at hp
      rcases bind_eq_error.1 hp with hp | ⟨nodes, -, hp⟩
      · obtain ⟨digits, hdigits, hzero, hg, ⟨hlength, rfl⟩ | ⟨hoctal, rfl⟩⟩ :=
          numericEscapeNodes_eq_error hp
        · exact .number ht hdigits hzero hg hlength
        · exact .escape ht hdigits hzero hg hoctal
      · cases hp
    | namedReference text name =>
      rw [ht] at hp
      dsimp only at hp
      split at hp <;> cases hp
      next hg => exact .name ht (by simpa using hg)
    | _ => rw [ht] at hp; cases hp
  · cases hp

/-- Building fails at a block, behind blocks that can be built. -/
theorem exists_push_error (h : bs.foldlM (Assembly.push g) a = .error error) :
    ∃ before b after a', bs = before ++ b :: after ∧
      before.foldlM (Assembly.push g) a = .ok a' ∧ a'.push g b = .error error := by
  induction bs generalizing a with
  | nil => cases h
  | cons b bs ih =>
    rw [List.foldlM_cons] at h
    rcases bind_eq_error.1 h with h | ⟨a₁, hb, h⟩
    · exact ⟨[], b, bs, a, rfl, rfl, h⟩
    · obtain ⟨before, c, after, a', rfl, hbefore, hc⟩ := ih h
      exact ⟨b :: before, c, after, a', rfl, pushAll_cons.2 ⟨a₁, hb, hbefore⟩, hc⟩

end Refused

end RegexAnatomy
