import RegexAnatomy.Node.Attach

/-! The tree of a list of blocks. The blocks are taken one after another into the
innermost open group, and every open group remembers what stands outside it, so
a closing parenthesis has its place at hand. The table of groups decides which
numeric escapes are references and which tests of conditionals name a group. -/

namespace RegexAnatomy

structure Level where
  /-- The branches that a bar has ended. -/
  ended : List (List Node) := []
  current : List Node := []

def Level.branches (l : Level) : List (List Node) := l.ended ++ [l.current]

def branchNode : List Node → Node
  | [] => .empty
  | [node] => node
  | nodes => .concat nodes

def bodyNode : List (List Node) → Node
  | [branch] => branchNode branch
  | branches => .alternation (branches.map branchNode)

/-- The text of a test that is a single leaf in plain parentheses. -/
def testToken : Node → Option Text
  | .sequence [.atom text ..] _ (.bracket _) _ => some text
  | _ => none

def isConstruct : Node → Bool
  | .sequence _ _ (.construct ..) _ => true
  | _ => false

/-- What a conditional opened at `start` tests: a group, where the test is the number or name of
one, and else whether the test matches. A number has to be that of a group. -/
def testCondition (groups : GroupTable) (start : Nat) (test : Node) :
    Except PatternError Condition :=
  match testToken test with
  | none => .ok (.expression (test.markTest true))
  | some token =>
    match groups.resolve token with
    | some id => .ok (.group id)
    | none =>
      if startsWithDigit token then .error (.undefinedGroup (start + 3 + utf8Length token) token)
      else .ok (.expression (test.markTest true))

def conditionalNode (groups : GroupTable) (start : Nat) (test : Node) (yes : List Node)
    (no : Option (List Node)) : Except PatternError Node := do
  let condition ← testCondition groups start test
  let testIsConstruct := match condition with
    | .group _ => false
    | .expression _ => isConstruct test
  .ok (.conditional condition (branchNode yes) (no.map branchNode) no.isSome testIsConstruct {})

inductive Opening where
  | bracket (capture : Option Nat)
  | group (opener : GroupOpener)
  | conditional

def Opening.node (groups : GroupTable) (start : Nat) (level : Level) :
    Opening → Except PatternError Node
  | .bracket capture => .ok (.wrapped (.bracket capture) (bodyNode level.branches))
  | .group opener =>
    .ok (.wrapped
      (.construct opener.text (opener.capture.bind groups.resolve)
        (opener.balance.bind groups.resolve))
      (bodyNode level.branches))
  | .conditional =>
    match level.branches with
    | [test :: yes] => conditionalNode groups start test yes none
    | [test :: yes, no] => conditionalNode groups start test yes (some no)
    | [] | [[]] | [[], _] => .error (.brokenInvariant "conditional without a test")
    | _ => .error (.tooManyBranches start)

structure Enclosure where
  opening : Opening
  start : Nat
  outside : Level

structure Assembly where
  level : Level := {}
  /-- The open groups, innermost first. -/
  enclosures : List Enclosure := []

namespace Assembly

def append (nodes : List Node) (a : Assembly) : Assembly :=
  { a with level := { a.level with current := a.level.current ++ nodes } }

def splitBranch (a : Assembly) : Assembly := { a with level := { ended := a.level.branches } }

def enter (opening : Opening) (start : Nat) (a : Assembly) : Assembly :=
  { enclosures := ⟨opening, start, a.level⟩ :: a.enclosures }

def leave (groups : GroupTable) (a : Assembly) : Except PatternError (Node × Assembly) :=
  match a.enclosures with
  | [] => .error (.brokenInvariant "unmatched ) reached the builder")
  | e :: outer => do
    let node ← e.opening.node groups e.start a.level
    .ok (node, ⟨e.outside, outer⟩)

end Assembly

def isOctalDigit (c : Char) : Bool := '0' ≤ c ∧ c ≤ '7'

/-- The nodes of a backslash with digits and further text. All the digits are a reference if they
name a group; else the first of them, three at most, are an octal escape, or a reference if these
name one. A first digit zero excludes references, and a single other digit excludes octal. -/
def numericEscapeNodes (groups : GroupTable) (text : Text) (span : Span) (s : Suffix) :
    Except PatternError (List Node) :=
  let escaped := text.drop 1
  let digits := escaped.takeWhile Char.isDigit
  let mayRefer := digits.head? ≠ some '0'
  if mayRefer ∧ groups.knows digits then
    .ok (quantifyTail (.reference ('\\' :: digits) true) (escaped.dropWhile Char.isDigit) s)
  else if mayRefer ∧ digits.length = 1 then .error (.undefinedGroup span.stop digits)
  else
    let octal := (digits.take 3).takeWhile isOctalDigit
    if octal = [] then .error (.badNumericEscape (span.start + 1) (escaped.headD '\\'))
    else
      let isReference := mayRefer && groups.knows octal
      .ok (quantifyTail (.reference ('\\' :: octal) isReference) (escaped.drop octal.length) s)

def Assembly.take (groups : GroupTable) (a : Assembly) (b : Block) :
    Except PatternError Assembly :=
  match b.token with
  | .openParen capture => .ok (a.enter (.bracket capture) b.span.start)
  | .openGroup opener => .ok (a.enter (.group opener) b.span.start)
  | .openConditional => .ok (a.enter .conditional b.span.start)
  | .close => do
    let (node, a) ← a.leave groups
    .ok (a.append (quantify node b.suffix))
  | .bar => .ok a.splitBranch
  | .options text => .ok (a.append [.plain text .inlineOptions])
  | .anchor text => .ok (a.append (quantify (.plain text .anchor) b.suffix))
  | .charClass text => .ok (a.append (quantify (.plain text .charClass) b.suffix))
  | .literal text => .ok (a.append (quantify (.literal text) b.suffix))
  | .namedReference text name =>
    if groups.knows name then .ok (a.append (quantify (.reference text true) b.suffix))
    else .error (.undefinedGroup b.span.stop name)
  | .numericEscape text => do
    let nodes ← numericEscapeNodes groups text b.span b.suffix
    .ok (a.append nodes)
  | .layout => .ok a

def Assembly.push (groups : GroupTable) (a : Assembly) (b : Block) :
    Except PatternError Assembly := do
  let a ← a.take groups b
  .ok (a.append (b.suffix.after ++ b.trivia.map Trivia.node))

def Node.ofBlocks (groups : GroupTable) (blocks : List Block) : Except PatternError Node := do
  let a ← blocks.foldlM (Assembly.push groups) {}
  match a.enclosures with
  | [] => .ok (bodyNode a.level.branches)
  | _ => .error (.brokenInvariant "group left open at end of pattern")

end RegexAnatomy
