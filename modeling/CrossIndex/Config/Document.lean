/-
Settings from a YAML document: a mapping from the names of fields to plain scalars. A document
without content has all defaults.
-/
import CrossIndex.Config.Reader
import CrossIndex.Yaml.Mapping

namespace CrossIndex.Config

open Yaml (Scalar)

/-- The value of digits in a base, of which there has to be one. -/
def radix? (base : Nat) (cs : List Char) : Option Nat :=
  match cs with
  | [] => none
  | cs => cs.foldlM (fun n c => do
      let d ← Text.hexValue? c
      if d < base then return n * base + d else none) 0

/-- Whether digits with a leading zero stand for a text and not for a number. -/
def isDigitText (cs : List Char) : Bool :=
  match cs with
  | '0' :: d :: ds => (d :: ds).all Char.isDigit
  | _ => false

/-- The value of a scalar without sign: hexadecimal, octal, binary or decimal. -/
def magnitude? (cs : List Char) : Option Nat :=
  match cs with
  | '0' :: 'x' :: ds => radix? 16 ds
  | '0' :: 'o' :: ds => radix? 8 ds
  | '0' :: 'b' :: ds => radix? 2 ds
  | cs => if isDigitText cs then none else radix? 10 cs

/-- The integer that a text writes. -/
def textInt? (cs : List Char) : Option Int :=
  match cs with
  | '+' :: ds => (magnitude? ds).map Int.ofNat
  | '-' :: ds => (magnitude? ds).map fun n => -(n : Int)
  | ds => (magnitude? ds).map Int.ofNat

/-- The natural number that a text writes; it takes no minus sign. -/
def textNat? (cs : List Char) : Option Nat :=
  match cs with
  | '+' :: ds => magnitude? ds
  | ds => magnitude? ds

/-- The truth value that a text writes. -/
def textBool? (cs : List Char) : Option Bool :=
  let s := String.ofList cs
  if s = "true" || s = "True" || s = "TRUE" then some true
  else if s = "false" || s = "False" || s = "FALSE" then some false
  else none

/-- The text of a scalar that stands for a value of a type: of a plain one, whatever its tag, and of
a literal block that is tagged with the type. -/
def valueText? (type : String) (s : Scalar) : Option (List Char) :=
  let isValue := s.style == .plain ||
    (s.style == .literal && s.tag == some ("tag:yaml.org,2002:" ++ type))
  if isValue then some s.text.toList else none

/-- The value of a field: an integer or a truth value, as its name demands. -/
def value? (name : String) (s : Scalar) : Option Json :=
  if name = "prune_missing_units" then do return .bool (← textBool? (← valueText? "bool" s))
  else if name = "backup_pages_per_step" then do return .int (← textInt? (← valueText? "int" s))
  else do return .int (← textNat? (← valueText? "int" s))

/-- The member of settings that an entry gives. -/
def member? (entry : Scalar × Scalar) : Option (String × Json) := do
  return (entry.1.text, ← value? entry.1.text entry.2)

/-- Reads the fields of a document, without regard to their ranges. -/
def ofFields? (s : String) : Option Config := do
  ofJson? (Json.object (← (← Yaml.entries? s).mapM member?))

/-- Reads settings from a document and checks their ranges. -/
def ofDocument (s : String) : Except ConfigError Config :=
  match ofFields? s with
  | none => .error .document
  | some config => do
    config.validate
    return config

end CrossIndex.Config
