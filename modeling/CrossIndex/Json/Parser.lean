/-
Strict JSON text to values: no leading zeros, no trailing commas, no text after the value, no byte
order mark. The nesting is followed on fuel; twice the length of the text is always enough, since
every second step takes a character.
-/
import CrossIndex.Json.Basic
import CrossIndex.Json.Literal
import CrossIndex.Text.Decimal

namespace CrossIndex.Json

/-- Whether a character may stand between two tokens. -/
def isGap (c : Char) : Bool :=
  c == ' ' || c == '\t' || c == '\n' || c == '\r'

/-- The text from its next token on. -/
def skipGap (cs : List Char) : List Char :=
  cs.dropWhile isGap

/-- The digits at the start of a text, of which there has to be one, and what follows them. -/
def digits? (cs : List Char) : Option (List Char × List Char) :=
  match cs.takeWhile Char.isDigit with
  | [] => none
  | d :: ds => some (d :: ds, cs.dropWhile Char.isDigit)

/-- The fraction part at the start of a text; there may be none. -/
def fraction? : List Char → Option (List Char × List Char)
  | '.' :: rest => do
    let (ds, rest) ← digits? rest
    return ('.' :: ds, rest)
  | rest => some ([], rest)

/-- The sign of an exponent, which may be missing. -/
def exponentSign : List Char → List Char × List Char
  | '+' :: rest => (['+'], rest)
  | '-' :: rest => (['-'], rest)
  | rest => ([], rest)

/-- The exponent part at the start of a text; there may be none. -/
def exponent? : List Char → Option (List Char × List Char)
  | [] => some ([], [])
  | e :: rest =>
    if e = 'e' || e = 'E' then do
      let (sign, rest) := exponentSign rest
      let (ds, rest) ← digits? rest
      return (e :: sign ++ ds, rest)
    else some ([], e :: rest)

/-- The value of a number without fraction and exponent; `-0` is no integer. -/
def integer (negative : Bool) (ds : List Char) : Json :=
  let n := Text.ofDigits ds
  if negative then (if n = 0 then .real "-0" else .int (-(n : Int))) else .int n

/-- Reads the digits, the fraction and the exponent of a number after its sign. -/
def unsigned? (negative : Bool) (cs : List Char) : Option (Json × List Char) := do
  let (ds, rest) ← digits? cs
  if ds.length > 1 && ds.head? == some '0' then none
  else
    let (fraction, rest) ← fraction? rest
    let (exponent, rest) ← exponent? rest
    if fraction.isEmpty && exponent.isEmpty then return (integer negative ds, rest)
    else
      let sign := if negative then ['-'] else []
      return (.real (String.ofList (sign ++ ds ++ fraction ++ exponent)), rest)

/-- Reads a number. -/
def number? : List Char → Option (Json × List Char)
  | '-' :: rest => unsigned? true rest
  | cs => unsigned? false cs

/-- Reads a fixed word. -/
def word? (word : List Char) (value : Json) (cs : List Char) : Option (Json × List Char) :=
  if word.isPrefixOf cs then some (value, cs.drop word.length) else none

mutual

/-- Reads one value and returns the text after it. -/
def value? : Nat → List Char → Option (Json × List Char)
  | 0, _ => none
  | fuel + 1, cs =>
    match skipGap cs with
    | [] => none
    | c :: rest =>
      if c = '"' then (literal? rest).map fun (t, rest) => (.str t, rest)
      else if c = '[' then
        match skipGap rest with
        | ']' :: rest => some (.arr [], rest)
        | rest => (items? fuel rest).map fun (items, rest) => (.arr items, rest)
      else if c = '\x7b' then
        match skipGap rest with
        | '\x7d' :: rest => some (.obj [], rest)
        | rest => (members? fuel rest).map fun (members, rest) => (.obj members, rest)
      else if c = 'n' then word? ['n', 'u', 'l', 'l'] .null (c :: rest)
      else if c = 't' then word? ['t', 'r', 'u', 'e'] (.bool true) (c :: rest)
      else if c = 'f' then word? ['f', 'a', 'l', 's', 'e'] (.bool false) (c :: rest)
      else number? (c :: rest)

/-- Reads the items of an array that has one, up to its closing bracket. -/
def items? : Nat → List Char → Option (List Json × List Char)
  | 0, _ => none
  | fuel + 1, cs => do
    let (item, rest) ← value? fuel cs
    match skipGap rest with
    | ',' :: rest =>
      let (items, rest) ← items? fuel rest
      return (item :: items, rest)
    | ']' :: rest => return ([item], rest)
    | _ => none

/-- Reads the members of an object that has one, up to its closing brace. -/
def members? : Nat → List Char → Option (List (Option String × Json) × List Char)
  | 0, _ => none
  | fuel + 1, cs =>
    match skipGap cs with
    | '"' :: rest => do
      let (name, rest) ← literal? rest
      match skipGap rest with
      | ':' :: rest =>
        let (value, rest) ← value? fuel rest
        match skipGap rest with
        | ',' :: rest =>
          let (members, rest) ← members? fuel rest
          return ((name, value) :: members, rest)
        | '\x7d' :: rest => return ([(name, value)], rest)
        | _ => none
      | _ => none
    | _ => none

end

/-- Reads a whole text as one value. -/
def parseChars? (cs : List Char) : Option Json := do
  let (value, rest) ← value? (2 * cs.length + 2) cs
  if (skipGap rest).isEmpty then return value else none

/-- Reads a whole text as one value. -/
def parse? (s : String) : Option Json :=
  parseChars? s.toList

end CrossIndex.Json
