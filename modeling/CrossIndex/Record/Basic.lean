/-
What an index hands over for one compilation unit: the entities it records, its references, its
relations and its file dependencies. Entities are named by key (name and declaration place), because
a unit mentions entities of other units before these have an id.
-/
import CrossIndex.Path.Component
import CrossIndex.Text.Decimal
import CrossIndex.Text.Quoted

namespace CrossIndex

/-- A number is in the range of signed 32-bit integers. -/
def InInt32 (n : Int) : Prop :=
  -2147483648 ≤ n ∧ n ≤ 2147483647

instance (n : Int) : Decidable (InInt32 n) :=
  inferInstanceAs (Decidable (_ ∧ _))

/-- A number is in the range of signed 64-bit integers. -/
def InInt64 (n : Int) : Prop :=
  -9223372036854775808 ≤ n ∧ n ≤ 9223372036854775807

instance (n : Int) : Decidable (InInt64 n) :=
  inferInstanceAs (Decidable (_ ∧ _))

/-- A source position with a visible column; lines and columns start at 1. -/
structure Location where
  file : String
  line : Int
  column : Int
  deriving DecidableEq, Repr, Inhabited

namespace Location

/-- Whether a location names a file and a position in it. -/
def isValid (l : Location) : Bool :=
  1 ≤ l.line && 1 ≤ l.column && !l.file.isEmpty

/-- A location in messages. -/
def display (l : Location) : String :=
  "Location \x7b file: " ++ Text.quoted l.file ++ ", line: " ++ Text.decimal l.line ++
    ", column: " ++ Text.decimal l.column ++ " \x7d"

/-- Whether two locations are at the same position of the same path, however it is spelled. -/
def same (a b : Location) : Bool :=
  Path.same a.file b.file && a.line == b.line && a.column == b.column

end Location

/-- The identity of an entity across units; a predefined entity has no declaration. -/
structure EntityKey where
  name : String
  decl : Option Location
  deriving DecidableEq, Repr, Inhabited

namespace EntityKey

/-- Whether two keys are equal up to the spelling of their paths. -/
def same (a b : EntityKey) : Bool :=
  a.name == b.name &&
    match a.decl, b.decl with
    | none, none => true
    | some x, some y => x.same y
    | _, _ => false

end EntityKey

/-- The attributes of a declaration. -/
structure EntityFlags where
  isSubprogram : Bool := false
  isContainer : Bool := false
  isAbstract : Bool := false
  isGeneric : Bool := false
  isAccess : Bool := false
  isType : Bool := false
  isArray : Bool := false
  isPrintable : Bool := false
  isGlobal : Bool := false
  isStaticLocal : Bool := false
  hasMethods : Bool := false
  bodyIsFullDeclaration : Bool := false
  deriving DecidableEq, Repr, Inhabited

/-- An entity as a unit records it. -/
structure EntityRecord where
  name : String
  kind : String
  decl : Option Location
  flags : EntityFlags
  deriving DecidableEq, Repr, Inhabited

/-- The key of a recorded entity. -/
def EntityRecord.key (r : EntityRecord) : EntityKey :=
  ⟨r.name, r.decl⟩

/-- A reference as a unit records it: to an entity, at a place, of a kind, within a scope. -/
structure ReferenceRecord where
  entity : EntityKey
  location : Location
  kindId : Char
  scope : Option EntityKey
  deriving DecidableEq, Repr, Inhabited

/-- The mode of a formal parameter. -/
inductive ParameterKind where
  | input
  | output
  | inOut
  | access
  deriving DecidableEq, Repr, Inhabited

namespace ParameterKind

/-- The written form of a mode. -/
def text : ParameterKind → String
  | .input => "in"
  | .output => "out"
  | .inOut => "in_out"
  | .access => "access"

/-- The mode with a written form. -/
def ofText? (s : String) : Option ParameterKind :=
  if s = "in" then some .input
  else if s = "out" then some .output
  else if s = "in_out" then some .inOut
  else if s = "access" then some .access
  else none

/-- The place of a mode in the order of modes. -/
def rank : ParameterKind → Nat
  | .input => 0
  | .output => 1
  | .inOut => 2
  | .access => 3

instance : Ord ParameterKind where
  compare := compareOn rank

end ParameterKind

/-- A relation as a unit records it, with its place among its siblings. -/
structure RelationRecord where
  source : EntityKey
  target : EntityKey
  kind : String
  order : Int
  parameterKind : Option ParameterKind
  deriving DecidableEq, Repr, Inhabited

/-- How fresh the index of a unit is. -/
structure UnitStamp where
  indexFile : String
  stamp : Int
  checksum : Option String
  deriving DecidableEq, Repr, Inhabited

/-- Everything that one compilation unit contributes. -/
structure UnitRecord where
  indexFile : String := ""
  stamp : Int := 0
  checksum : Option String := none
  /-- The source files that belong to the unit. -/
  sourceFiles : List String := []
  /-- The files that the unit depends on. -/
  dependencies : List String := []
  entities : List EntityRecord := []
  references : List ReferenceRecord := []
  relations : List RelationRecord := []
  deriving DecidableEq, Repr, Inhabited

/-- The freshness of a unit. -/
def UnitRecord.unitStamp (u : UnitRecord) : UnitStamp :=
  ⟨u.indexFile, u.stamp, u.checksum⟩

end CrossIndex
