/-
Database handles. A handle has settings and a connection to a store; stores are opened, saved,
copied and changed through handles.
-/
import CrossIndex.Config.Basic
import CrossIndex.Database.Connection
import CrossIndex.Path.Component
import CrossIndex.Query.Resolution
import CrossIndex.Store.Ingest
import CrossIndex.Text.Column

namespace CrossIndex

/-- A handle to a database. -/
structure Database where
  /-- The address under which it was opened, if one was given. -/
  path : Option String
  connection : Connection
  config : Config
  deriving Inhabited

namespace Database

/-- Opens a database with an address, or a new one in memory. Settings are checked first. The tree
may have a new file even if the database cannot be opened. -/
def connect (t : FileTree) (others : List Connection) (path : Option String) (config : Config) :
    Except Failure Database × FileTree :=
  match config.validate with
  | .error e => (.error e.failure, t)
  | .ok () =>
    match Connection.toText t others (path.getD "") with
    | (none, t) => (.error Connection.unreachable, t)
    | (some c, t) =>
      match c.establish t with
      | .error f => (.error f, t)
      | .ok t => (.ok ⟨path, c, config⟩, t)

/-- The store of a handle. There is none if the file of the handle has been emptied or overwritten.
-/
def store (db : Database) (t : FileTree) : Except Failure Store := do
  match ← db.connection.read t with
  | some s => return s
  | none => .error (Failure.ofStatement "no such table")

/-- Whether a path names the file that a handle was opened with. -/
def isAt (db : Database) (t : FileTree) (path : String) : Bool :=
  db.path.any fun own => t.sameNode Path.same own path

/-- Replaces the store of a handle by that of another one. -/
def copyFrom (db : Database) (t : FileTree) (other : Database) : Except Failure FileTree :=
  db.connection.copyFrom t other.connection

/-- Saves the store of a handle under an address. The tree may have a new file even if the store
cannot be saved. -/
def saveAs (db : Database) (t : FileTree) (others : List Connection) (path : String) :
    Except Failure Unit × FileTree :=
  match Connection.toText t others path with
  | (none, t) => (.error Connection.unreachable, t)
  | (some c, t) =>
    match c.copyFrom t db.connection with
    | .error f => (.error f, t)
    | .ok t => (.ok (), t)

/-- Inserts an entity outside of any unit. -/
def insertEntity (db : Database) (t : FileTree) (r : EntityRecord) :
    Except Failure (Entity × FileTree) := do
  r.key.check.mapError (Defect.failure "<dynamic>")
  let s ← db.store t
  let (e, s) ← s.insertEntity t.canon r
  return (e, ← db.connection.write t s)

/-- Adds or replaces a reference kind. -/
def registerKind (db : Database) (t : FileTree) (kind : ReferenceKind) :
    Except Failure FileTree := do
  let s ← db.store t
  db.connection.write t (s.registerKind kind)

/-- The visible column of a byte column, with the tab width of the settings. -/
def visibleColumn (db : Database) (line : String) (byteColumn : Nat) : Int :=
  Text.visibleColumn line byteColumn db.config.tabWidth

end Database

end CrossIndex
