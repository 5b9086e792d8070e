/-
The store: rows of units, files, kinds, entities, references, relations and file dependencies, and a
generation counter. Ids of units, files and entities are one above the largest in use, so the ids of
the highest rows come back after a deletion and gaps below stay. Rows stand in the order in which
they were inserted.
-/
import CrossIndex.Record.Flags
import CrossIndex.Reference.Basic

namespace CrossIndex

/-- A unit that has been ingested. -/
structure UnitRow where
  id : Int
  indexFile : String
  stamp : Int
  checksum : Option String
  /-- The unit came with a baseline and no local source has ingested it since. -/
  fromBaseline : Bool
  deriving DecidableEq, Repr, Inhabited

/-- A declaration place: a file id with a line and a column. -/
structure Place where
  file : Int
  line : Int
  column : Int
  deriving DecidableEq, Repr, Inhabited

/-- An entity. Without an owner it is a stub or a dynamic entity. -/
structure EntityRow where
  id : Int
  name : String
  kind : String
  decl : Option Place
  isGlobal : Bool
  isStaticLocal : Bool
  /-- The other ten attributes, packed. -/
  attributes : Nat
  /-- The unit that declares the entity. -/
  owner : Option Int
  /-- The entity was inserted explicitly. -/
  dynamic : Bool
  deriving DecidableEq, Repr, Inhabited

/-- All attributes of an entity. -/
def EntityRow.flags (e : EntityRow) : EntityFlags :=
  EntityFlags.unpacked e.isGlobal e.isStaticLocal e.attributes

/-- A reference to an entity. -/
structure ReferenceRow where
  entity : Int
  file : Int
  line : Int
  column : Int
  kindId : Char
  scope : Option Int
  unit : Int
  deriving DecidableEq, Repr, Inhabited

/-- A relation between two entities. -/
structure RelationRow where
  source : Int
  target : Int
  kind : String
  order : Int
  parameterKind : Option ParameterKind
  unit : Int
  deriving DecidableEq, Repr, Inhabited

/-- A dependency of a file on another one. -/
structure DependencyRow where
  source : Int
  target : Int
  unit : Int
  deriving DecidableEq, Repr, Inhabited

/-- The contents of a cross-reference database. -/
structure Store where
  units : List UnitRow
  files : List SourceFile
  kinds : List ReferenceKind
  entities : List EntityRow
  references : List ReferenceRow
  relations : List RelationRow
  dependencies : List DependencyRow
  /-- Counts the changes of the store. -/
  generation : Nat
  deriving DecidableEq, Repr, Inhabited

/-- How many rows a store has of each sort. -/
structure StoreCounts where
  units : Nat
  files : Nat
  entities : Nat
  references : Nat
  relations : Nat
  deriving DecidableEq, Repr, Inhabited

namespace Store

/-- The store of a new database: nothing but the standard kinds. -/
def fresh : Store where
  units := []
  files := []
  kinds := ReferenceKind.standard
  entities := []
  references := []
  relations := []
  dependencies := []
  generation := 0

/-- The id that the next row gets: one above the largest in use. -/
def nextId (ids : List Int) : Int :=
  ids.foldl max 0 + 1

/-- Whether a store has neither units nor entities. -/
def isEmpty (s : Store) : Bool :=
  s.units.isEmpty && s.entities.isEmpty

/-- The row counts of a store. -/
def counts (s : Store) : StoreCounts :=
  ⟨s.units.length, s.files.length, s.entities.length, s.references.length, s.relations.length⟩

/-- The store with its generation counted up. -/
def bump (s : Store) : Store :=
  { s with generation := s.generation + 1 }

/-- The unit with an index file. -/
def unit? (s : Store) (indexFile : String) : Option UnitRow :=
  s.units.find? fun u => u.indexFile == indexFile

/-- The file with an id. -/
def file? (s : Store) (id : Int) : Option SourceFile :=
  s.files.find? fun f => f.id == id

/-- The file with a path text. -/
def fileAt? (s : Store) (path : String) : Option SourceFile :=
  s.files.find? fun f => f.path == path

/-- The entity with an id. -/
def entity? (s : Store) (id : Int) : Option EntityRow :=
  s.entities.find? fun e => e.id == id

/-- The entity with a name and a declaration place. -/
def entityAt? (s : Store) (name : String) (decl : Option Place) : Option EntityRow :=
  s.entities.find? fun e => e.name == name && e.decl == decl

/-- The kind with an id. -/
def kind? (s : Store) (id : Char) : Option ReferenceKind :=
  s.kinds.find? fun k => k.id == id

/-- The file with a path text, added if it is new, and its id. -/
def internFile (s : Store) (path : String) : Int × Store :=
  match s.fileAt? path with
  | some f => (f.id, s)
  | none =>
    let id := nextId (s.files.map SourceFile.id)
    (id, { s with files := s.files ++ [⟨id, path⟩] })

/-- Adds an entity and returns its id. -/
def addEntity (s : Store) (row : Int → EntityRow) : Int × Store :=
  let id := nextId (s.entities.map EntityRow.id)
  (id, { s with entities := s.entities ++ [row id] })

/-- Replaces the entity rows with an id. -/
def updateEntity (s : Store) (id : Int) (change : EntityRow → EntityRow) : Store :=
  { s with entities := s.entities.map fun e => if e.id == id then change e else e }

/-- Adds a kind, or replaces the one with its id. -/
def registerKind (s : Store) (kind : ReferenceKind) : Store :=
  if s.kinds.any fun k => k.id == kind.id then
    { s with kinds := s.kinds.map fun k => if k.id == kind.id then kind else k }
  else { s with kinds := s.kinds ++ [kind] }

end Store

end CrossIndex
