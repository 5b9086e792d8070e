/-
JSON values as they are written: members keep their order and their repetitions, integers are told
apart from other numbers, and a string literal that denotes no text is kept as such.
-/
namespace CrossIndex

/-- A JSON value. -/
inductive Json where
  | null
  | bool (value : Bool)
  /-- A number written without fraction and exponent, `-0` apart. -/
  | int (value : Int)
  /-- Any other number, as written. -/
  | real (text : String)
  /-- A string; `none` stands for a literal with an unpaired surrogate, which denotes no text. -/
  | str (text : Option String)
  | arr (items : List Json)
  | obj (members : List (Option String × Json))
  deriving Inhabited

namespace Json

/-- A string value with a given text. -/
def text (s : String) : Json :=
  .str (some s)

/-- An object with given member names. -/
def object (members : List (String × Json)) : Json :=
  .obj (members.map fun member => (some member.1, member.2))

/-- The text of a string. -/
def asText? : Json → Option String
  | .str t => t
  | _ => none

/-- The value of an integer. -/
def asInt? : Json → Option Int
  | .int i => some i
  | _ => none

/-- The value of a truth value. -/
def asBool? : Json → Option Bool
  | .bool b => some b
  | _ => none

/-- The items of an array. -/
def asItems? : Json → Option (List Json)
  | .arr items => some items
  | _ => none

end Json

end CrossIndex
