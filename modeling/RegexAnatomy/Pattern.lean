import RegexAnatomy.Block.Stream
import RegexAnatomy.Node.OfBlocks
import RegexAnatomy.Node.Outline
import RegexAnatomy.Portable

/-! Reading a whole pattern: its tree, its groups, and its portable form. A
pattern whose conditionals are portable as they stand is its own portable form;
any other is written out from the changed tree. -/

namespace RegexAnatomy

structure Pattern where
  root : Node
  groups : GroupTable
  /-- The pattern in portable form. -/
  portable : Text
  /-- Some conditional had to change. -/
  changed : Bool

def readTree (pattern : Text) : Except PatternError (Node × GroupTable) := do
  let stream ← blocksOf pattern
  let groups := GroupTable.ofCaptures stream.captures stream.names
  let root ← Node.ofBlocks groups stream.blocks
  .ok (root, groups)

def Pattern.read (style : Style) (pattern : Text) : Except PatternError Pattern := do
  let (tree, groups) ← readTree pattern
  let (root, changed) := tree.portable style
  .ok { root, groups, changed, portable := if changed then root.render else pattern }

def portableForm (style : Style) (pattern : Text) : Except PatternError Text :=
  Pattern.portable <$> Pattern.read style pattern

structure Report where
  input : Text
  outline : Text
  output : Text
  changed : Bool
  deriving DecidableEq

def Report.ofPattern (style : Style) (pattern : Text) : Except PatternError Report := do
  let read ← Pattern.read style pattern
  .ok { input := pattern, outline := read.root.outline, output := read.portable,
        changed := read.changed }

def Report.text (r : Report) : Text :=
  "Transpilation Report\n====================\n".toList ++
    "Input:     ".toList ++ r.input ++ '\n' :: "AST:       ".toList ++ r.outline ++
    '\n' :: "Output:    ".toList ++ r.output ++
    '\n' :: "Rewritten: ".toList ++ (if r.changed then "yes\n" else "no\n").toList

end RegexAnatomy
