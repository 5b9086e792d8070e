/-
Bringing a store up to date with a source. An empty store is first seeded from a baseline; units
whose stored freshness matches are skipped, the others are loaded and written in the order in which
they are offered; units that are no longer offered are pruned, unless they came with a baseline and
no local source has ingested them since; orphans are purged. A unit that cannot be loaded or written
is reported and passed over, while a storage failure ends the update.

With many stale units the pass runs on a copy of the store, which replaces the store only when the
pass ends well. Otherwise the pass runs on the store itself, and units written before a failure
stay.

Where the storage fails is a parameter of an update (`Storage`), of which a storage that does not fail
is one case and a store that cannot be written another.
-/
import CrossIndex.Config.Basic
import CrossIndex.Store.Transaction

namespace CrossIndex

/-- What an update did. -/
structure Summary where
  offered : Nat := 0
  ingested : Nat := 0
  skipped : Nat := 0
  failed : Nat := 0
  pruned : Nat := 0
  /-- The pass ran on a copy. -/
  staged : Bool := false
  baselineCopied : Bool := false
  outputWritten : Bool := false
  deriving DecidableEq, Repr, Inhabited

/-- Whether an offered unit is as fresh as the stored one. Checksums decide when both sides have
one; otherwise a stamp that is no newer does. -/
def UnitStamp.isUpToDate (u : UnitStamp) : Option UnitRow → Bool
  | none => false
  | some row =>
    match u.checksum, row.checksum with
    | some offered, some stored => offered == stored
    | _, _ => u.stamp ≤ row.stamp

/-- What is to be done in a pass. -/
structure Plan where
  /-- The offered units, each with whether it is stale. -/
  offered : List (UnitStamp × Bool)
  /-- The index files of the units to prune. -/
  missing : List String
  deriving DecidableEq, Repr, Inhabited

namespace Plan

/-- How many units are stale. -/
def staleCount (p : Plan) : Nat :=
  (p.offered.filter fun u => u.2).length

/-- The index files of the units that local sources have written, in text order. -/
def localUnits (s : Store) : List String :=
  ((s.units.filter fun u => !u.fromBaseline).map UnitRow.indexFile).mergeSort fun a b =>
    (compare a b).isLE

/-- The plan for a store and the units that a source offers. -/
def make (config : Config) (force : Bool) (s : Store) (units : List UnitStamp) : Plan where
  offered := units.map fun u => (u, force || !u.isUpToDate (s.unit? u.indexFile))
  missing :=
    if config.pruneMissingUnits then
      (localUnits s).filter fun file => !units.any fun u => u.indexFile == file
    else []

end Plan

/-- Where the storage fails in a pass. -/
structure Faults where
  /-- When a unit is written, by how many units were offered before it. -/
  unit : Nat → Option Fault := fun _ => none
  /-- When the unit with an index file is pruned. -/
  prune : String → Option StorageFailure := fun _ => none
  /-- When orphans are purged. -/
  purge : Option StorageFailure := none
  /-- When the generation is counted up. -/
  bump : Option StorageFailure := none

namespace Faults

/-- The storage does not fail. -/
def nothing : Faults := {}

/-- Nothing can be written. -/
def everything (f : StorageFailure) : Faults where
  unit _ := some (.statement 0 f)
  prune _ := some f
  purge := some f
  bump := some f

end Faults

/-- A pass in progress. -/
structure Pass where
  store : Store
  ingested : Nat := 0
  failed : Nat := 0
  pruned : Nat := 0
  reports : List String := []
  /-- After each unit, how many units are done and how many are offered. -/
  progress : List (Nat × Nat) := []
  deriving DecidableEq, Repr, Inhabited

namespace Pass

/-- Whether a pass has changed anything. -/
def wrote (p : Pass) : Bool :=
  0 < p.ingested || 0 < p.pruned

/-- Loads and writes one unit, and tells the failure of the storage if there is one. -/
def ingest (canon : String → String) (src : Source) (fault : Option Fault) (u : UnitStamp)
    (p : Pass) : Pass × Option Failure :=
  match p.store.loadInto canon src fault u with
  | (.ok (), store) => ({ p with store := store, ingested := p.ingested + 1 }, none)
  | (.error f, store) =>
    if f.isStorage then ({ p with store := store }, some f)
    else
      ({ p with store := store, failed := p.failed + 1, reports := p.reports ++ [f.display] }, none)

/-- Counts a unit as done. -/
def tick (total : Nat) (p : Pass) : Pass :=
  { p with progress := p.progress ++ [(p.progress.length + 1, total)] }

/-- Goes through the offered units, up to the first storage failure. -/
def ingestAll (canon : String → String) (src : Source) (faults : Faults) (total : Nat) :
    Pass → List (UnitStamp × Bool) → Pass × Option Failure
  | p, [] => (p, none)
  | p, (u, stale) :: more =>
    if stale then
      match p.ingest canon src (faults.unit p.progress.length) u with
      | (p, some f) => (p, some f)
      | (p, none) => ingestAll canon src faults total (p.tick total) more
    else ingestAll canon src faults total (p.tick total) more

/-- Prunes the unit with an index file. -/
def prune (p : Pass) (indexFile : String) : Pass :=
  match p.store.unit? indexFile with
  | some u => { p with store := p.store.deleteUnit u.id, pruned := p.pruned + 1 }
  | none => p

/-- Prunes the units with some index files, up to the first storage failure. -/
def pruneAll (faults : Faults) : Pass → List String → Pass × Option Failure
  | p, [] => (p, none)
  | p, file :: more =>
    match faults.prune file with
    | some f => (p, some f.val)
    | none => pruneAll faults (p.prune file) more

/-- Ends a pass: if it has changed anything, orphans are purged and the generation counts up. -/
def finish (p : Pass) : Pass :=
  if p.wrote then { p with store := p.store.purgeOrphans.bump } else p

/-- Ends a pass, up to the first storage failure. -/
def conclude (faults : Faults) (p : Pass) : Pass × Option Failure :=
  match p.wrote, faults.purge, faults.bump with
  | true, some f, _ => (p, some f.val)
  | true, none, some f => ({ p with store := p.store.purgeOrphans }, some f.val)
  | _, _, _ => (p.finish, none)

/-- Runs a plan on a store. -/
def run (canon : String → String) (src : Source) (faults : Faults) (plan : Plan) (s : Store) :
    Pass × Option Failure :=
  match ingestAll canon src faults plan.offered.length { store := s } plan.offered with
  | (p, some f) => (p, some f)
  | (p, none) =>
    match p.pruneAll faults plan.missing with
    | (p, some f) => (p, some f)
    | (p, none) => p.conclude faults

end Pass

/-- What the path of a baseline turns out to name. -/
inductive Baseline where
  /-- The store that is being updated. -/
  | target
  /-- No file. -/
  | missing (path : String)
  /-- A file that holds no store. -/
  | unusable (failure : Failure)
  | saved (store : Store)
  deriving DecidableEq, Repr, Inhabited

/-- What an update leaves behind. -/
structure UpdateResult where
  outcome : Except Failure Summary
  store : Store
  reports : List String := []
  progress : List (Nat × Nat) := []

/-- Where the storage fails in an update. -/
structure Storage where
  /-- When a baseline is copied into the store. -/
  seeding : Option StorageFailure := none
  /-- When the store is copied for a staged pass. -/
  copying : Option StorageFailure := none
  /-- In a pass on the copy. -/
  onCopy : Faults := .nothing
  /-- When the copy takes the place of the store. -/
  takeOver : Option StorageFailure := none
  /-- In a pass on the store itself. -/
  inPlace : Faults := .nothing

namespace Storage

/-- A storage that does not fail. -/
def sound : Storage := {}

/-- A storage on which the store cannot be written; copies are made in memory, where they can. -/
def readOnly (f : StorageFailure) : Storage where
  seeding := some f
  takeOver := some f
  inPlace := .everything f

/-- Where the storage fails in a pass that is staged or not. -/
def faults (storage : Storage) (staged : Bool) : Faults :=
  if staged then storage.onCopy else storage.inPlace

end Storage

namespace Store

/-- A store whose units all count as brought by a baseline. -/
def markBaseline (s : Store) : Store :=
  { s with units := s.units.map fun u => { u with fromBaseline := true } }

/-- Seeds an empty store from a baseline: the store, whether the baseline was copied, and what is
reported. -/
def seed (s : Store) (baseline : Option Baseline) : Except Failure (Store × Bool × List String) :=
  match baseline with
  | none => .ok (s, false, [])
  | some b =>
    if !s.isEmpty then .ok (s, false, [])
    else match b with
      | .target => .ok (s, false, [])
      | .missing path => .ok (s, false, ["baseline database " ++ path ++ " not found"])
      | .unusable f => .error f
      | .saved saved => .ok (saved.markBaseline, true, [])

/-- Seeds a store on a storage that may fail. -/
def seedOn (storage : Storage) (s : Store) (baseline : Option Baseline) :
    Except Failure (Store × Bool × List String) :=
  match s.seed baseline, storage.seeding with
  | .ok (_, true, _), some f => .error f.val
  | seeded, _ => seeded

/-- Runs the pass of an update on a store that has been seeded. -/
def updateSeededOn (storage : Storage) (canon : String → String) (config : Config) (src : Source)
    (force : Bool) (s : Store) (units : List UnitStamp) : UpdateResult :=
  let plan := Plan.make config force s units
  let staged : Bool := config.stagingThreshold ≤ plan.staleCount
  match if staged then storage.copying else none with
  | some f => { outcome := .error f.val, store := s }
  | none =>
    match Pass.run canon src (storage.faults staged) plan s with
    | (p, some f) =>
      { outcome := .error f, store := if staged then s else p.store, reports := p.reports,
        progress := p.progress }
    | (p, none) =>
      match if staged && p.wrote then storage.takeOver else none with
      | some f =>
        { outcome := .error f.val, store := s, reports := p.reports, progress := p.progress }
      | none =>
        { outcome := .ok
            { offered := units.length, ingested := p.ingested,
              skipped := units.length - plan.staleCount, failed := p.failed, pruned := p.pruned,
              staged := staged }
          store := if staged && !p.wrote then s else p.store
          reports := p.reports
          progress := p.progress }

/-- Brings a store up to date with a source, on a storage that may fail. -/
def updateOn (storage : Storage) (canon : String → String) (config : Config) (src : Source)
    (force : Bool) (baseline : Option Baseline) (s : Store) : UpdateResult :=
  match s.seedOn storage baseline with
  | .error f => { outcome := .error f, store := s }
  | .ok (s, copied, seedReports) =>
    match src.units with
    | .error f => { outcome := .error f, store := s, reports := seedReports }
    | .ok units =>
      let result := s.updateSeededOn storage canon config src force units
      { result with
        outcome := result.outcome.map fun summary => { summary with baselineCopied := copied }
        reports := seedReports ++ result.reports }

/-- Runs the pass of an update on a storage that does not fail. -/
def updateSeeded (canon : String → String) (config : Config) (src : Source) (force : Bool)
    (s : Store) (units : List UnitStamp) : UpdateResult :=
  s.updateSeededOn .sound canon config src force units

/-- Brings a store up to date with a source, on a storage that does not fail. -/
def update (canon : String → String) (config : Config) (src : Source) (force : Bool)
    (baseline : Option Baseline) (s : Store) : UpdateResult :=
  s.updateOn .sound canon config src force baseline

end Store

end CrossIndex
