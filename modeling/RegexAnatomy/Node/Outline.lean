import RegexAnatomy.Node
import RegexAnatomy.Text.Quoted

/-! The outline of a tree: every node by the name of its shape, with its fields
by name, on one line. -/

namespace RegexAnatomy

def outlineCall (name : String) (part : Text) : Text := name.toList ++ '(' :: part ++ [')']

def outlineOption (part : Option Text) : Text :=
  match part with
  | none => "None".toList
  | some part => outlineCall "Some" part

def outlineBool (b : Bool) : Text := (if b then "true" else "false").toList

def commaSeparated : List Text → Text
  | [] => []
  | [part] => part
  | part :: parts => part ++ [',', ' '] ++ commaSeparated parts

def outlineList (parts : List Text) : Text := '[' :: commaSeparated parts ++ [']']

def outlineRecord (name : String) (fields : List (String × Text)) : Text :=
  name.toList ++ [' ', '\x7b', ' '] ++
    commaSeparated (fields.map fun field => field.1.toList ++ [':', ' '] ++ field.2) ++
    [' ', '\x7d']

def AtomKind.name : AtomKind → String
  | .literal => "Literal"
  | .anchor => "Anchor"
  | .charClass => "CharacterClass"
  | .backreference => "Backreference"
  | .inlineOptions => "InlineOptions"
  | .inlineComment => "InlineComment"
  | .lineComment => "EndOfLineComment"
  | .blanks => "Whitespace"

def GroupId.outline (id : GroupId) : Text :=
  outlineRecord "GroupId" [("token", quoted id.token), ("number", numeral id.number),
    ("alias", outlineOption (id.counterpart.map quoted))]

def Wrapping.outline : Wrapping → Text
  | .bare => "None".toList
  | .bracket capture =>
    outlineRecord "Bracket" [("capture_number", outlineOption (capture.map numeral))]
  | .construct opener capture balance =>
    outlineRecord "NamedConstruct" [("construct_text", quoted opener),
      ("capture_alias", outlineOption (capture.map GroupId.outline)),
      ("balance_alias", outlineOption (balance.map GroupId.outline))]

def Portability.outline (p : Portability) : Text :=
  outlineRecord "Portability" [("c1_wrap", outlineBool p.wrapTest),
    ("c2_wrap", outlineBool p.wrapYes), ("c3_wrap", outlineBool p.wrapNo),
    ("c3_prefix_options", quoted p.noOptions)]

mutual

def Node.outline : Node → Text
  | .atom text kind isReference =>
    outlineRecord "Atom" [("text", quoted text), ("kind", kind.name.toList),
      ("is_reference", outlineOption (isReference.map outlineBool))]
  | .sequence children quantifier wrapping isTest =>
    outlineRecord "Sequence" [("children", outlineList (outlines children)),
      ("quantifier", quoted quantifier), ("wrapping", wrapping.outline),
      ("is_condition_test", outlineBool isTest)]
  | .alternation branches =>
    outlineRecord "Alternation" [("branches", outlineList (outlines branches))]
  | .conditional condition yes no hasBar testIsConstruct p =>
    outlineRecord "Conditional" [("condition", condition.outline), ("yes_branch", yes.outline),
      ("no_branch", match no with
        | none => outlineOption none
        | some no => outlineOption (some no.outline)),
      ("have_no_branch", outlineBool hasBar),
      ("invalidates_nearest_numbered_group", outlineBool testIsConstruct),
      ("portability", p.outline)]

def Condition.outline : Condition → Text
  | .group id => outlineCall "GroupRef" id.outline
  | .expression test => outlineCall "Expression" test.outline

def outlines : List Node → List Text
  | [] => []
  | node :: nodes => node.outline :: outlines nodes

end

end RegexAnatomy
