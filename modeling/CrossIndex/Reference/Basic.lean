/-
Entities, files and references as queries return them, and the order of references. The order puts
the position first and then breaks ties by every other field, so that two references compare as
equal exactly when they are the same reference; whether an entity is an approximation never counts.
-/
import CrossIndex.Path.Component
import CrossIndex.Record.Basic
import CrossIndex.Reference.Kind

namespace CrossIndex

/-- A handle to an entity. Ids below zero name no entity. -/
structure Entity where
  id : Int
  /-- The entity was returned as an approximation of what was asked for. -/
  fuzzy : Bool := false
  deriving DecidableEq, Repr, Inhabited

namespace Entity

/-- The handle that names no entity. -/
def none : Entity := ⟨-1, false⟩

/-- The exact handle with an id. -/
def ofId (id : Int) : Entity := ⟨id, false⟩

/-- The handle of an id that may be missing. -/
def ofId? (id : Option Int) : Entity :=
  match id with
  | some id => ofId id
  | Option.none => none

/-- Whether a handle names no entity. -/
def isNone (e : Entity) : Bool := e.id < 0

/-- The handle as an approximation. -/
def asFuzzy (e : Entity) : Entity := { e with fuzzy := true }

/-- Entities are the same when their ids are. -/
def same (a b : Entity) : Bool := a.id == b.id

instance : Ord Entity where
  compare := compareOn Entity.id

end Entity

/-- A known source file. -/
structure SourceFile where
  id : Int
  path : String
  deriving DecidableEq, Repr, Inhabited

/-- Files are the same when their ids and their paths are, however the path is spelled. -/
def SourceFile.same (a b : SourceFile) : Bool :=
  Path.same a.path b.path && a.id == b.id

/-- A located mention of an entity. -/
structure Reference where
  entity : Entity
  file : Option SourceFile
  line : Int
  column : Int
  /-- The display text of the kind. -/
  kind : String
  kindId : Char
  /-- The enclosing entity, if the reference is attributed to one. -/
  scope : Entity
  isEndOfScope : Bool
  deriving DecidableEq, Repr, Inhabited

namespace Reference

/-- The reference to nothing. -/
def null : Reference where
  entity := Entity.none
  file := none
  line := -1
  column := -1
  kind := ""
  kindId := ReferenceKind.declarationId
  scope := Entity.none
  isEndOfScope := false

/-- Whether a reference is to nothing. -/
def isNull (r : Reference) : Bool := r.entity.isNone

/-- Whether a reference was returned as an approximation. -/
def isFuzzy (r : Reference) : Bool := r.entity.fuzzy

/-- The reference as an approximation. -/
def asFuzzy (r : Reference) : Reference := { r with entity := r.entity.asFuzzy }

/-- Whether two references are the same, field by field. -/
def same (a b : Reference) : Bool :=
  a.entity.same b.entity &&
    (match a.file, b.file with
      | none, none => true
      | some x, some y => x.same y
      | _, _ => false) &&
    a.line == b.line && a.column == b.column && a.kind == b.kind && a.kindId == b.kindId &&
    a.scope.same b.scope && a.isEndOfScope == b.isEndOfScope

/-- The components of the path that a reference lies in; no file comes before any. -/
def pathKey (r : Reference) : Option (List Path.Component) :=
  r.file.map fun f => Path.components f.path

/-- The id of the file that a reference lies in. -/
def fileId (r : Reference) : Option Int :=
  r.file.map SourceFile.id

/-- The text of the path that a reference lies in. -/
def pathText (r : Reference) : Option String :=
  r.file.map SourceFile.path

instance : Ord Reference where
  compare :=
    compareLex (compareOn pathKey) <|
    compareLex (compareOn line) <|
    compareLex (compareOn column) <|
    compareLex (compareOn kindId) <|
    compareLex (compareOn fun r => r.entity.id) <|
    compareLex (compareOn fun r => r.scope.id) <|
    compareLex (compareOn fileId) <|
    compareLex (compareOn kind) (compareOn isEndOfScope)

end Reference

/-- A formal parameter with its mode. -/
structure Parameter where
  entity : Entity
  kind : ParameterKind
  deriving DecidableEq, Repr, Inhabited

instance : Ord Parameter where
  compare := compareLex (compareOn Parameter.entity) (compareOn Parameter.kind)

/-- The declaration of an entity. -/
structure Declaration where
  name : String
  kind : String
  location : Reference
  flags : EntityFlags
  deriving DecidableEq, Repr, Inhabited

namespace Declaration

/-- The declaration of no entity. -/
def none : Declaration := ⟨"", "", Reference.null, {}⟩

/-- Whether a declaration is that of no entity. -/
def isNone (d : Declaration) : Bool := d.location.isNull

/-- Whether the entity is built in: it exists and has no place in a file. -/
def isPredefined (d : Declaration) : Bool := !d.isNone && d.location.file.isNone

end Declaration

end CrossIndex
