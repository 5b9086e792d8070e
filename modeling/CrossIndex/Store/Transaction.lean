/-
Transactions. Each unit is written in a transaction of its own, which is committed when all of the
unit has been taken in. Where the storage fails before that, at the beginning, at some statement or
at the commit, the transaction is rolled back and the store is what it was.
-/
import CrossIndex.Source.Basic
import CrossIndex.Store.Ingest

namespace CrossIndex

/-- Where the storage breaks off the write of a unit. The rows of a unit satisfy all constraints of
the tables, so that a statement is refused by the storage only. -/
inductive Fault where
  /-- The transaction cannot be begun. -/
  | opening (failure : StorageFailure)
  /-- A statement fails after some of the unit's records have been taken in. -/
  | statement (records : Nat) (failure : StorageFailure)
  /-- The transaction cannot be committed. -/
  | closing (failure : StorageFailure)
  deriving DecidableEq, Repr

/-- The failure with which a write is broken off. -/
def Fault.failure : Fault → Failure
  | .opening f => f.val
  | .statement _ f => f.val
  | .closing f => f.val

/-- A transaction in progress. -/
structure Transaction where
  /-- The store in which it was begun. -/
  before : Store
  /-- The store as written so far. -/
  within : Store
  deriving DecidableEq, Repr, Inhabited

namespace Transaction

/-- Ends a transaction with what has been written. -/
def commit (t : Transaction) : Store := t.within

/-- Ends a transaction without it. -/
def rollback (t : Transaction) : Store := t.before

end Transaction

/-- How the records of a unit are taken in, one after the other. -/
def Writer.steps (canon : String → String) (u : UnitRecord) : List (Writer → Writer) :=
  u.sourceFiles.map (fun path w => w.addSource canon path) ++
    u.entities.map (fun r w => w.putEntity canon r) ++
    u.references.map (fun r w => w.putReference canon r) ++
    u.relations.map (fun r w => w.putRelation canon r) ++
    u.dependencies.map (fun path w => w.putDependency canon path)

namespace Store

/-- The writer after a number of a unit's records. -/
def draftedUntil (canon : String → String) (s : Store) (u : UnitRecord) (records : Nat) : Writer :=
  ((Writer.steps canon u).take records).foldl (fun w step => step w) (Writer.start s u)

/-- The store as a unit has been written when the write is broken off. -/
def writtenUntil (canon : String → String) (s : Store) (u : UnitRecord) : Fault → Store
  | .opening _ => s
  | .statement records _ => (s.draftedUntil canon u records).store
  | .closing _ => s.replaceUnit canon u

/-- Writes a unit in a transaction, which a fault breaks off: how that ends, and the store after it. A
unit with a defect is not begun. -/
def commitUnit (canon : String → String) (fault : Option Fault) (s : Store) (u : UnitRecord) :
    Except Failure Unit × Store :=
  match s.writeUnit canon u with
  | .error f => (.error f, s)
  | .ok written =>
    match fault with
    | none => (.ok (), (Transaction.mk s written).commit)
    | some fault =>
      (.error fault.failure, (Transaction.mk s (s.writtenUntil canon u fault)).rollback)

/-- Loads an offered unit and writes it. -/
def loadInto (canon : String → String) (src : Source) (fault : Option Fault) (s : Store)
    (u : UnitStamp) : Except Failure Unit × Store :=
  match src.load u with
  | .error f => (.error f, s)
  | .ok r => s.commitUnit canon fault r

end Store

end CrossIndex
