import RegexAnatomy.Block
import RegexAnatomy.CharClass
import RegexAnatomy.Group.Name
import RegexAnatomy.Literal

/-! The token at the front of a text that starts with no trivia. What is read
is a prefix of the text: the token's own text followed by the rest is the text
itself. -/

namespace RegexAnatomy

structure Lead where
  token : Token
  rest : Text
  /-- A quantifier may follow. -/
  repeatable : Bool

/-- The name behind a hyphen, if there is a hyphen; then a name has to follow. -/
def readBalance (t : Text) : Except Fault (Option Text × Text) :=
  match t with
  | '-' :: u =>
    match readGroupName u with
    | .error fault => .error fault
    | .ok (none, _) => .error (.malformed (.badGroupName []) u)
    | .ok (some name, rest) => .ok (some name, rest)
  | u => .ok (none, u)

/-- A capture name, a balanced name or both, between `mark` and `close`, after `(?`. -/
def readNamedOpener (mark close : Char) (t : Text) : Except Fault Lead := do
  let (capture, rest) ← readGroupName t
  let (balance, rest) ← readBalance rest
  let written := capture.getD [] ++ (balance.map ('-' :: ·)).getD []
  match rest with
  | c :: rest =>
    if c = close ∧ written ≠ [] then
      .ok ⟨.openGroup ⟨'(' :: '?' :: mark :: written ++ [close], capture, balance⟩, rest, false⟩
    else .error (.malformed (.badGroupName written) ('(' :: '?' :: mark :: t))
  | [] => .error (.malformed (.badGroupName written) ('(' :: '?' :: mark :: t))

/-- Options up to `)`, which sets them, or `:`, which opens a group under them. -/
def readOptions (t : Text) : Except Fault Lead :=
  let letters := t.takeWhile isOptionChar
  match t.dropWhile isOptionChar with
  | ')' :: rest => .ok ⟨.options ('(' :: '?' :: letters ++ [')']), rest, false⟩
  | ':' :: rest => .ok ⟨.openGroup { text := '(' :: '?' :: letters ++ [':'] }, rest, false⟩
  | _ => .error (.malformed .unknownConstruct ('(' :: '?' :: t))

def readConstruct (t : Text) : Except Fault Lead :=
  match t with
  | '<' :: '=' :: rest => .ok ⟨.openGroup { text := ['(', '?', '<', '='] }, rest, false⟩
  | '<' :: '!' :: rest => .ok ⟨.openGroup { text := ['(', '?', '<', '!'] }, rest, false⟩
  | '<' :: rest => readNamedOpener '<' '>' rest
  | '\x27' :: rest => readNamedOpener '\x27' '\x27' rest
  | '(' :: '?' :: '#' :: rest => .error (.malformed .commentAsTest ('(' :: '?' :: '#' :: rest))
  | '(' :: rest => .ok ⟨.openConditional, '(' :: rest, false⟩
  | c :: rest =>
    if [':', '>', '=', '!'].contains c then .ok ⟨.openGroup { text := ['(', '?', c] }, rest, false⟩
    else if isOptionChar c then readOptions (c :: rest)
    else .error (.malformed .unknownConstruct ('(' :: '?' :: t))
  | [] => .error (.malformed .unknownConstruct ['(', '?'])

/-- A single unit when a quantifier follows it, else a run of units up to one that a quantifier
follows. -/
def readLiteral (free : Bool) (t : Text) : Except Fault Lead :=
  match splitUnit free t with
  | none => .error (.noLiteral t)
  | some (unit, rest) =>
    if quantifierFollows free rest then .ok ⟨.literal unit, rest, true⟩
    else
      let (more, rest) := takeUnits free (quantifierFollows free) rest
      .ok ⟨.literal (unit ++ more), rest, false⟩

/-- The digits after a backslash, and the units after them that no quantifier directly follows. -/
def readNumericEscape (free : Bool) (t : Text) : Lead :=
  let digits := t.takeWhile Char.isDigit
  let rest := t.dropWhile Char.isDigit
  let (tail, rest) :=
    if startsQuantifier rest then ([], rest) else takeUnits free startsQuantifier rest
  ⟨.numericEscape ('\\' :: digits ++ tail), rest, true⟩

def readNamedReference (mark close : Char) (t : Text) : Except Fault Lead := do
  match ← readGroupName t with
  | (some name, c :: rest) =>
    if c = close then
      .ok ⟨.namedReference ('\\' :: 'k' :: mark :: name ++ [close]) name, rest, true⟩
    else .error (.malformed (.badEscape 'k') ('\\' :: 'k' :: mark :: t))
  | _ => .error (.malformed (.badEscape 'k') ('\\' :: 'k' :: mark :: t))

def readEscape (free : Bool) (t : Text) : Except Fault Lead :=
  match t with
  | [] => .error (.malformed .trailingBackslash ['\\'])
  | 'k' :: '<' :: rest => readNamedReference '<' '>' rest
  | 'k' :: '\x27' :: rest => readNamedReference '\x27' '\x27' rest
  | 'k' :: rest => .error (.malformed (.badEscape 'k') ('\\' :: 'k' :: rest))
  | c :: rest =>
    if ['d', 'D', 'w', 'W', 's', 'S'].contains c then .ok ⟨.charClass ['\\', c], rest, true⟩
    else if ['A', 'z', 'Z', 'G', 'b', 'B'].contains c then .ok ⟨.anchor ['\\', c], rest, true⟩
    else if c.isDigit then .ok (readNumericEscape free t)
    else if ['p', 'P', 'u', 'x', 'c'].contains c then
      match escapeArgument c rest with
      | none => .error (.malformed (.badEscape c) ('\\' :: t))
      | some (arg, rest) =>
        let text := '\\' :: c :: arg
        .ok ⟨if isPropertyLetter c then .charClass text else .literal text, rest, true⟩
    else readLiteral free ('\\' :: t)

structure Context where
  mode : Mode
  /-- The number of plain parentheses that captured so far. -/
  captures : Nat
  /-- The parenthesis of a conditional's test comes next. -/
  atTest : Bool
  /-- Some group is open. -/
  insideGroup : Bool

def Context.nextCapture (ctx : Context) : Option Nat :=
  if ctx.atTest || ctx.mode.explicitCapture then none else some (ctx.captures + 1)

/-- The token at the front of a text without leading trivia; `none` at the end. -/
def readLead (ctx : Context) (t : Text) : Except Fault (Option Lead) :=
  match t with
  | [] => .ok none
  | '(' :: '?' :: rest => some <$> readConstruct rest
  | '(' :: rest => .ok (some ⟨.openParen ctx.nextCapture, rest, false⟩)
  | ')' :: rest =>
    if ctx.insideGroup then .ok (some ⟨.close, rest, true⟩)
    else .error (.malformed .unmatchedClose t)
  | '|' :: rest => .ok (some ⟨.bar, rest, false⟩)
  | '^' :: rest => .ok (some ⟨.anchor ['^'], rest, false⟩)
  | '$' :: rest => .ok (some ⟨.anchor ['$'], rest, false⟩)
  | '[' :: rest => do
    let (text, rest) ← readClass rest
    .ok (some ⟨.charClass text, rest, true⟩)
  | '\\' :: rest => some <$> readEscape ctx.mode.freeSpacing rest
  | c :: _ =>
    if startsQuantifier t then .error (.malformed (.danglingQuantifier c) t)
    else some <$> readLiteral ctx.mode.freeSpacing t

end RegexAnatomy
