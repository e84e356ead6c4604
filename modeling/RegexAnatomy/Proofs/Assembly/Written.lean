import Mathlib.Data.List.Basic
import RegexAnatomy.Proofs.Assembly.Conditionals
import RegexAnatomy.Proofs.Block.Canonical
import RegexAnatomy.Proofs.Groups

/-! How the nodes of blocks, branches and groups are written. A block is written
with its quantifier in canonical spelling, and a group with the text of its opener,
unless it is a conditional that tests a group: of such a test only the group is
kept. -/

namespace RegexAnatomy

section Leaf

variable {g : GroupTable} {b : Block}

theorem renderAll_trivia (items : List Trivia) :
    renderAll (items.map Trivia.node) = triviaText items := by
  rw [renderAll_eq, List.flatMap_map]
  rfl

theorem Repetition.render_suffix (r : Repetition) :
    renderAll r.suffix.before ++ r.suffix.quantifier ++ renderAll r.suffix.after =
      r.canonicalText := by
  unfold Repetition.suffix Repetition.canonicalText
  rcases r.lazyMark with - | items
  · simp [renderAll_trivia, triviaText]
  · cases items with
    | nil =>
      simp only [renderAll_trivia, renderAll_nil, triviaText, List.flatMap_nil, List.append_nil,
        Option.getD_some, Option.isSome_some, true_and]
      split
      next h => rw [List.dropLast_append_getLast? _ h]
      next => rfl
    | cons item items =>
      simp only [Option.getD_some, Option.isSome_some, true_and]
      split
      · simp only [renderAll_trivia, renderAll_nil, List.append_nil, List.append_assoc]
      · simp only [renderAll_trivia, List.append_assoc]

/-- What a suffix and the trivia behind it are written as. -/
theorem Block.render_suffix (b : Block) :
    b.token.text ++ renderAll b.suffix.before ++ b.suffix.quantifier ++ renderAll b.loose =
      b.canonicalText := by
  unfold Block.loose Block.suffix Block.canonicalText
  cases b.repetition with
  | none => simp [renderAll_trivia]
  | some r => simp [← r.render_suffix, renderAll_trivia]

theorem Block.Yields.render {nodes : List Node} (h : b.Yields g nodes) (hr : b.Regular) :
    renderAll (nodes ++ b.loose) = b.canonicalText := by
  rw [← b.render_suffix, renderAll_append]
  rcases h.cases hr with ⟨hl, rfl⟩ | ⟨text, ht, rfl⟩ |
    ⟨text, kind, isReference, tail, -, ht, -, -, rfl⟩
  · simp [hl, Token.text, Block.suffix, (hr.layout hl).1]
  · have hs : b.suffix = {} := hr.suffix_eq (by simp [ht, Token.StandsAlone])
    simp [ht, hs, Token.text]
  · simp [renderAll_quantifyTail, ht, Node.render]

theorem Repetition.IsCanonical.suffix_after {r : Repetition} (h : r.IsCanonical) :
    r.suffix.after = [] := by
  rcases r with ⟨before, quantifier, - | ⟨- | ⟨item, items⟩⟩⟩
  · rfl
  · rfl
  · replace h : canonicalRepetition quantifier true = quantifier ++ ['?'] := h
    simp [Repetition.suffix, h]

theorem Repetition.IsCanonical.suffix_quantifier {r : Repetition} (h : r.IsCanonical)
    (hq : r.quantifier ≠ []) : r.suffix.quantifier ≠ [] := by
  rcases r with ⟨before, quantifier, - | ⟨- | ⟨item, items⟩⟩⟩
  · replace h : canonicalRepetition quantifier false = quantifier ++ [] := h
    simpa [Repetition.suffix, h] using hq
  · replace h : canonicalRepetition quantifier true = quantifier ++ ['?'] := h
    simp [Repetition.suffix, h]
  · replace h : canonicalRepetition quantifier true = quantifier ++ ['?'] := h
    simp [Repetition.suffix, h]

theorem Block.loose_of_canonical (h : ∀ r ∈ b.repetition, r.IsCanonical) :
    b.loose = b.trivia.map Trivia.node := by
  cases hr : b.repetition with
  | none => simp [Block.loose, Block.suffix, hr]
  | some r => simp [Block.loose, Block.suffix, hr, (h r hr).suffix_after]

end Leaf

def branchesText (branches : List (List Node)) : Text := renderBranches (branches.map branchNode)

theorem render_branchNode (branch : List Node) : (branchNode branch).render = renderAll branch := by
  unfold branchNode
  split <;> simp [Node.empty]

theorem render_bodyNode (branches : List (List Node)) :
    (bodyNode branches).render = branchesText branches := by
  unfold bodyNode
  split <;> rfl

theorem branchesText_append (nodes branch : List Node) (branches : List (List Node)) :
    branchesText ((nodes ++ branch) :: branches) =
      renderAll nodes ++ branchesText (branch :: branches) := by
  cases branches <;> simp [branchesText, renderBranches, render_branchNode]

theorem branchesText_bar {branches : List (List Node)} (h : branches ≠ []) :
    branchesText ([] :: branches) = '|' :: branchesText branches := by
  cases branches with
  | nil => exact absurd rfl h
  | cons => simp [branchesText, renderBranches, render_branchNode]

section Groups

variable {g : GroupTable}

/-- A group is written with the text of its opener, its branches and a closing parenthesis, if its
test is written as it is kept. -/
theorem Opening.render_node {opener : Block} {opening : Opening} {start : Nat} {level : Level}
    {node : Node} (ho : opener.token.opening? = some opening)
    (hn : opening.node g start level = .ok node)
    (htest : opening = .conditional → ∀ test yes branches token,
      level.branches = (test :: yes) :: branches → testToken test = some token →
      (g.resolve token).isSome → test.render = '(' :: token ++ [')']) :
    node.render = opener.token.text ++ branchesText level.branches ++ [')'] := by
  cases ht : opener.token <;> rw [ht] at ho <;> cases ho
  case openParen capture =>
    cases hn
    simp [render_bodyNode, Wrapping.around, Token.text]
  case openGroup opener =>
    cases hn
    simp [render_bodyNode, Wrapping.around, Token.text]
  case openConditional =>
    obtain ⟨test, yes, no, hlevel, hn⟩ := conditional_opening_eq_ok.1 hn
    obtain ⟨condition, hc, rfl⟩ := conditionalNode_eq_ok.1 hn
    have hcondition : condition.render false = test.render := by
      cases condition with
      | group id =>
        obtain ⟨token, ht, hid⟩ := testCondition_group hc
        rw [htest rfl test yes _ token hlevel ht (by simp [hid]), ← GroupTable.resolve_token hid]
        rfl
      | expression marked =>
        rw [testCondition_expression hc]
        simp [Condition.render, groupedWhen]
    rw [Node.render_conditional, hcondition, hlevel]
    cases no <;>
      simp [branchesText, renderBranches, render_branchNode, groupedWhen, Token.text]

end Groups

end RegexAnatomy
