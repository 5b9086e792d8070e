/-
Writing one unit into a store. The unit's references, relations and dependencies replace those it
recorded before. Entities are found by name and declaration place, so their ids survive a new
ingestion; a unit owns the entities declared in its own source files, and an entity that it only
mentions becomes a stub without owner until its declaring unit arrives. Entities that the unit owned
and no longer mentions are deleted at the end.

Paths are turned into stored texts by a function `canon`, which callers choose: the normal form of
the text, or what the text names on disk.
-/
import CrossIndex.IdSet
import CrossIndex.Record.Check
import CrossIndex.Store.Deletion

namespace CrossIndex

namespace Store

/-- The row of a unit, added or brought up to date, and its id. -/
def enterUnit (s : Store) (u : UnitRecord) : Int × Store :=
  match s.unit? u.indexFile with
  | some row =>
    (row.id, { s with
      units := s.units.map fun r =>
        if r.id == row.id then
          { r with stamp := u.stamp, checksum := u.checksum, fromBaseline := false }
        else r })
  | none =>
    let id := nextId (s.units.map UnitRow.id)
    (id, { s with units := s.units ++ [⟨id, u.indexFile, u.stamp, u.checksum, false⟩] })

/-- An entity of which nothing but its key is known. -/
def stub (name : String) (decl : Option Place) (id : Int) : EntityRow where
  id := id
  name := name
  kind := ""
  decl := decl
  isGlobal := false
  isStaticLocal := false
  attributes := 0
  owner := none
  dynamic := false

end Store

namespace EntityRecord

/-- The row of a recorded entity at a place. -/
def row (r : EntityRecord) (decl : Option Place) (owner : Option Int) (dynamic : Bool) (id : Int) :
    EntityRow where
  id := id
  name := r.name
  kind := r.kind
  decl := decl
  isGlobal := r.flags.isGlobal
  isStaticLocal := r.flags.isStaticLocal
  attributes := r.flags.packed
  owner := owner
  dynamic := dynamic

/-- A row described anew by a record. A new owner ends a dynamic life; without one, owner and
dynamic mark stay. -/
def describe (r : EntityRecord) (owner : Option Int) (e : EntityRow) : EntityRow :=
  { e with
    kind := r.kind
    isGlobal := r.flags.isGlobal
    isStaticLocal := r.flags.isStaticLocal
    attributes := r.flags.packed
    owner := owner.or e.owner
    dynamic := e.dynamic && owner.isNone }

end EntityRecord

/-- A unit being written. -/
structure Writer where
  store : Store
  /-- The id of the unit. -/
  unit : Int
  /-- The ids of the unit's source files. -/
  sources : List Int
  /-- The entities that the unit owned before. -/
  owned : List Int
  /-- The entities that the unit keeps. -/
  kept : List Int
  /-- The ids of the stored path texts met so far. -/
  paths : List (String × Int)
  /-- The ids of the keys met so far, the latest first. -/
  keys : List (EntityKey × Int)
  deriving Inhabited

namespace Writer

/-- Starts to write a unit: its row is there, and what it recorded before is gone. -/
def start (s : Store) (u : UnitRecord) : Writer :=
  let (unit, s) := s.enterUnit u
  ⟨s.deleteUnitRows unit, unit, [], s.ownedBy unit, [], [], []⟩

/-- The id of the file that a path names. -/
def fileId (canon : String → String) (w : Writer) (path : String) : Int × Writer :=
  let stored := canon path
  match w.paths.lookup stored with
  | some id => (id, w)
  | none =>
    let (id, store) := w.store.internFile stored
    (id, { w with store := store, paths := (stored, id) :: w.paths })

/-- The place of a declaration. -/
def place (canon : String → String) (w : Writer) (decl : Option Location) : Option Place × Writer :=
  match decl with
  | none => (none, w)
  | some l =>
    let (file, w) := w.fileId canon l.file
    (some ⟨file, l.line, l.column⟩, w)

/-- Whether a declaration lies in one of the unit's source files. -/
def declares (w : Writer) (decl : Option Place) : Bool :=
  decl.any fun p => w.sources.contains p.file

/-- Takes in one of the unit's source files. -/
def addSource (canon : String → String) (w : Writer) (path : String) : Writer :=
  let (id, w) := w.fileId canon path
  { w with sources := IdSet.insert id w.sources }

/-- Takes in a recorded entity. A known entity is described anew if the unit declares it or nothing
was known of it. -/
def putEntity (canon : String → String) (w : Writer) (r : EntityRecord) : Writer :=
  let (decl, w) := w.place canon r.decl
  let own := w.declares decl
  let owner := if own then some w.unit else none
  let (id, store) := match w.store.entityAt? r.name decl with
    | some e =>
      (e.id,
        if own || e.kind.isEmpty then w.store.updateEntity e.id (r.describe owner) else w.store)
    | none => w.store.addEntity (r.row decl owner false)
  { w with
    store := store
    kept := if own then IdSet.insert id w.kept else w.kept
    keys := (r.key, id) :: w.keys }

/-- The id of a key among those met so far. -/
def known? (w : Writer) (key : EntityKey) : Option Int :=
  (w.keys.find? fun entry => entry.1.same key).map (·.2)

/-- The id of the entity with a key; an unknown one becomes a stub. -/
def entityId (canon : String → String) (w : Writer) (key : EntityKey) : Int × Writer :=
  match w.known? key with
  | some id => (id, w)
  | none =>
    let (decl, w) := w.place canon key.decl
    let (id, store) := match w.store.entityAt? key.name decl with
      | some e => (e.id, w.store)
      | none => w.store.addEntity (Store.stub key.name decl)
    let keep := w.declares decl && w.owned.contains id
    (id, { w with
      store := store
      kept := if keep then IdSet.insert id w.kept else w.kept
      keys := (key, id) :: w.keys })

/-- The id of the scope of a reference, if it has one. -/
def scopeId (canon : String → String) (w : Writer) (scope : Option EntityKey) :
    Option Int × Writer :=
  match scope with
  | none => (none, w)
  | some key =>
    let (id, w) := w.entityId canon key
    (some id, w)

/-- Takes in a recorded reference. -/
def putReference (canon : String → String) (w : Writer) (r : ReferenceRecord) : Writer :=
  let (entity, w) := w.entityId canon r.entity
  let (scope, w) := w.scopeId canon r.scope
  let (file, w) := w.fileId canon r.location.file
  let row : ReferenceRow :=
    ⟨entity, file, r.location.line, r.location.column, r.kindId, scope, w.unit⟩
  { w with store := { w.store with references := w.store.references ++ [row] } }

/-- Takes in a recorded relation. -/
def putRelation (canon : String → String) (w : Writer) (r : RelationRecord) : Writer :=
  let (source, w) := w.entityId canon r.source
  let (target, w) := w.entityId canon r.target
  let row : RelationRow := ⟨source, target, r.kind, r.order, r.parameterKind, w.unit⟩
  { w with store := { w.store with relations := w.store.relations ++ [row] } }

/-- Takes in a file that the unit depends on: every other source file of the unit depends on it. -/
def putDependency (canon : String → String) (w : Writer) (path : String) : Writer :=
  let (target, w) := w.fileId canon path
  let sources := w.sources.filter fun source => source != target
  let rows := sources.map fun source => (⟨source, target, w.unit⟩ : DependencyRow)
  { w with store := { w.store with dependencies := w.store.dependencies ++ rows } }

/-- Ends writing: entities that the unit owned and did not keep are deleted. -/
def finish (w : Writer) : Store :=
  w.store.deleteEntities fun id => w.owned.contains id && !w.kept.contains id

end Writer

namespace Store

/-- The writer after all records of a unit have been taken in. -/
def drafted (canon : String → String) (s : Store) (u : UnitRecord) : Writer :=
  let w := Writer.start s u
  let w := u.sourceFiles.foldl (Writer.addSource canon) w
  let w := u.entities.foldl (Writer.putEntity canon) w
  let w := u.references.foldl (Writer.putReference canon) w
  let w := u.relations.foldl (Writer.putRelation canon) w
  u.dependencies.foldl (Writer.putDependency canon) w

/-- The store after a unit without defects has been written. -/
def replaceUnit (canon : String → String) (s : Store) (u : UnitRecord) : Store :=
  (s.drafted canon u).finish

/-- Writes a unit on a storage that does not fail; a unit with a defect changes nothing. -/
def writeUnit (canon : String → String) (s : Store) (u : UnitRecord) : Except Failure Store :=
  match u.check with
  | .ok () => .ok (s.replaceUnit canon u)
  | .error d => .error (d.failure u.indexFile)

/-- Inserts an entity outside of any unit, or finds the one with its key. Either way the generation
counts up. -/
def insertEntity (canon : String → String) (s : Store) (r : EntityRecord) :
    Except Failure (Entity × Store) :=
  match r.key.check with
  | .error d => .error (d.failure "<dynamic>")
  | .ok () =>
    let (decl, s) : Option Place × Store := match r.decl with
      | none => (none, s)
      | some l =>
        let (file, s) := s.internFile (canon l.file)
        (some ⟨file, l.line, l.column⟩, s)
    let (id, s) := match s.entityAt? r.name decl with
      | some e => (e.id, s)
      | none => s.addEntity (r.row decl none true)
    .ok (Entity.ofId id, s.bump)

end Store

end CrossIndex
