/-
JSON values to text, on one line or indented. Members keep their order; a string or member name that
denotes no text is written as the empty text.
-/
import CrossIndex.Json.Basic
import CrossIndex.Json.Literal
import CrossIndex.Text.Decimal

namespace CrossIndex.Json

/-- A string or member name as a literal. -/
def writtenText (t : Option String) : List Char :=
  written (t.getD "")

mutual

/-- A value on one line, without any blank. -/
def compact : Json → List Char
  | .null => ['n', 'u', 'l', 'l']
  | .bool true => ['t', 'r', 'u', 'e']
  | .bool false => ['f', 'a', 'l', 's', 'e']
  | .int i => Text.integerChars i
  | .real t => t.toList
  | .str t => writtenText t
  | .arr [] => ['[', ']']
  | .arr (item :: items) => '[' :: compact item ++ compactItems items ++ [']']
  | .obj [] => ['\x7b', '\x7d']
  | .obj ((name, value) :: members) =>
    '\x7b' :: writtenText name ++ ':' :: compact value ++ compactMembers members ++ ['\x7d']

/-- Further items, each after a comma. -/
def compactItems : List Json → List Char
  | [] => []
  | item :: items => ',' :: compact item ++ compactItems items

/-- Further members, each after a comma. -/
def compactMembers : List (Option String × Json) → List Char
  | [] => []
  | (name, value) :: members =>
    ',' :: writtenText name ++ ':' :: compact value ++ compactMembers members

end

/-- A line break and the blanks that start a line at a nesting depth, two for each level. -/
def newline (depth : Nat) : List Char :=
  '\n' :: List.replicate (2 * depth) ' '

mutual

/-- A value over several lines, from a nesting depth on. -/
def pretty : Nat → Json → List Char
  | _, .null => ['n', 'u', 'l', 'l']
  | _, .bool true => ['t', 'r', 'u', 'e']
  | _, .bool false => ['f', 'a', 'l', 's', 'e']
  | _, .int i => Text.integerChars i
  | _, .real t => t.toList
  | _, .str t => writtenText t
  | _, .arr [] => ['[', ']']
  | depth, .arr (item :: items) =>
    '[' :: newline (depth + 1) ++ pretty (depth + 1) item ++ prettyItems (depth + 1) items ++
      newline depth ++ [']']
  | _, .obj [] => ['\x7b', '\x7d']
  | depth, .obj ((name, value) :: members) =>
    '\x7b' :: newline (depth + 1) ++ writtenText name ++ ':' :: ' ' :: pretty (depth + 1) value ++
      prettyMembers (depth + 1) members ++ newline depth ++ ['\x7d']

/-- Further items, each after a comma and on a line of its own. -/
def prettyItems : Nat → List Json → List Char
  | _, [] => []
  | depth, item :: items =>
    ',' :: newline depth ++ pretty depth item ++ prettyItems depth items

/-- Further members, each after a comma and on a line of its own. -/
def prettyMembers : Nat → List (Option String × Json) → List Char
  | _, [] => []
  | depth, (name, value) :: members =>
    ',' :: newline depth ++ writtenText name ++ ':' :: ' ' :: pretty depth value ++
      prettyMembers depth members

end

/-- The text of a value on one line. -/
def render (j : Json) : String :=
  String.ofList (compact j)

/-- The text of a value over several lines. -/
def renderPretty (j : Json) : String :=
  String.ofList (pretty 0 j)

end CrossIndex.Json
