/-
Updates of databases: the store of a handle is brought up to date with a source, after it has been
seeded from a baseline file if it was empty, and the result is written to an output file as well.
-/
import CrossIndex.Database.Basic
import CrossIndex.Update

namespace CrossIndex.Database

/-- What is asked of an update. -/
structure UpdateOptions where
  force : Bool := false
  baseline : Option String := none
  output : Option String := none
  deriving DecidableEq, Repr, Inhabited

/-- What an update of a database leads to. -/
structure UpdateOutcome where
  outcome : Except Failure Summary
  reports : List String := []
  progress : List (Nat × Nat) := []

/-- The store that a handle gets from a baseline file; an empty file stands for a new store. A file
that turns out to be the handle's own cannot be copied. -/
def baselineStore (db : Database) (t : FileTree) (path : String) : Except Failure Store :=
  match Connection.toAddress t [] (.file path false false) with
  | (none, _) => .error Connection.unreachable
  | (some c, _) =>
    if c.file = db.connection.file then .error Connection.locked
    else (c.read t).map fun s => s.getD Store.fresh

/-- What the path of a baseline names for a handle. -/
def baselineAt (db : Database) (t : FileTree) (path : String) : Baseline :=
  if db.isAt t path then .target
  else if (t.lookupFile path).isNone then .missing path
  else
    match db.baselineStore t path with
    | .ok s => .saved s
    | .error f => .unusable f

/-- The tree with a file where a path may be written. -/
def withFile (t : FileTree) (path : String) : Except PathError FileTree := do
  let spot ← t.locate path
  return if (t.node? spot).isSome then t else (t.createFile spot ⟨.bytes [], 0⟩).2

/-- Writes the store of a handle to an output path: whether it was written, what is reported, and
the tree. Nothing is written to the handle's own file. -/
def writeOutput (db : Database) (t : FileTree) (others : List Connection) (path : String) :
    Except Failure (Bool × List String) × FileTree :=
  if db.isAt t path then (.ok (false, []), t)
  else
    match withFile t path with
    | .error e => (.ok (false, ["output " ++ path ++ " is not writable: " ++ e.message]), t)
    | .ok t =>
      let (saved, t) := db.saveAs t others path
      (saved.map fun _ => (true, []), t)

/-- The storage that a handle has: it fails wherever its store is written if that cannot be done. -/
def storage (db : Database) (t : FileTree) : Storage :=
  if db.connection.isWritable t then .sound else .readOnly ⟨Connection.notWritable, rfl⟩

/-- Runs an update on the store that a handle has. -/
def run (db : Database) (t : FileTree) (src : Source) (options : UpdateOptions) (s : Store) :
    UpdateResult :=
  s.updateOn (db.storage t) t.canon db.config src options.force
    (options.baseline.map (db.baselineAt t))

/-- The failure of an update whose store cannot be read. A source that offers nothing is noticed
before that, unless there is a baseline. -/
def unreadable (src : Source) (options : UpdateOptions) (f : Failure) : UpdateOutcome :=
  match options.baseline, src.units with
  | none, .error e => { outcome := .error e }
  | _, _ => { outcome := .error f }

/-- Brings a database up to date with a source. -/
def update (db : Database) (t : FileTree) (others : List Connection) (src : Source)
    (options : UpdateOptions) : UpdateOutcome × FileTree :=
  match db.store t with
  | .error f => (unreadable src options f, t)
  | .ok s =>
    let result := db.run t src options s
    let t := if result.store = s then t else db.connection.set t (.store result.store)
    let done : UpdateOutcome := ⟨result.outcome, result.reports, result.progress⟩
    match result.outcome, options.output with
    | .ok summary, some path =>
      match db.writeOutput t others path with
      | (.error f, t) => ({ done with outcome := .error f }, t)
      | (.ok (written, reports), t) =>
        ({ done with
            outcome := .ok { summary with outputWritten := written }
            reports := done.reports ++ reports }, t)
    | _, _ => (done, t)

end CrossIndex.Database
