/-
Reading records from JSON values. A record is an object with its fields by name or an array with its
fields by place; in an object unknown names are passed over and a known name stands at most once, in
an array trailing fields may be missing. What a missing field means is decided field by field.
-/
import CrossIndex.Json.Basic

namespace CrossIndex.Json

/-- The members of an object, all of whose names have to denote a text. -/
def named? (members : List (Option String × Json)) : Option (List (String × Json)) :=
  members.mapM fun member => member.1.map fun name => (name, member.2)

/-- Whether a name stands at most once among members. -/
def atMostOnce (members : List (String × Json)) (name : String) : Bool :=
  (members.filter fun member => member.1 == name).length ≤ 1

/-- The fields of a record, in the order of their names. -/
def fields? (names : List String) : Json → Option (List (Option Json))
  | .obj members => do
    let members ← named? members
    if names.all (atMostOnce members) then return names.map fun name => members.lookup name
    else none
  | .arr items =>
    if items.length ≤ names.length then
      some (items.map some ++ List.replicate (names.length - items.length) none)
    else none
  | _ => none

/-- A field that has to be there. -/
def required (read : Json → Option α) : Option Json → Option α
  | some value => read value
  | none => none

/-- A field that has a default. -/
def defaulting (default : α) (read : Json → Option α) : Option Json → Option α
  | some value => read value
  | none => some default

/-- A field that may be missing or null. -/
def optional (read : Json → Option α) : Option Json → Option (Option α)
  | none => some none
  | some .null => some none
  | some value => (read value).map some

/-- An integer within bounds. -/
def intWithin (least greatest : Int) (value : Json) : Option Int := do
  let i ← value.asInt?
  if least ≤ i && i ≤ greatest then return i else none

/-- A signed 32-bit integer. -/
def int32? : Json → Option Int := intWithin (-2147483648) 2147483647

/-- A signed 64-bit integer. -/
def int64? : Json → Option Int := intWithin (-9223372036854775808) 9223372036854775807

/-- An unsigned 32-bit integer. -/
def nat32? (value : Json) : Option Nat := (intWithin 0 4294967295 value).map Int.toNat

/-- An unsigned 64-bit integer. -/
def nat64? (value : Json) : Option Nat := (intWithin 0 18446744073709551615 value).map Int.toNat

/-- A string of exactly one character. -/
def char? (value : Json) : Option Char := do
  match (← value.asText?).toList with
  | [c] => return c
  | _ => none

/-- An array, read item by item. -/
def list? (read : Json → Option α) (value : Json) : Option (List α) := do
  (← value.asItems?).mapM read

end CrossIndex.Json
