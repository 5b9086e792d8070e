/-
Unit records held in memory, in the order of their index paths. A record that could not be read is
held as the reason why; it is offered with the largest stamp, so that it never looks up to date.
-/
import CrossIndex.Path.Component
import CrossIndex.Source.Basic

namespace CrossIndex

/-- Units held in memory by the path they were first put under, in the order of paths. -/
structure MemorySource where
  units : List (String × Except String UnitRecord) := []
  deriving Inhabited

/-- The stamp under which unreadable units are offered. -/
def unreadableStamp : Int := 9223372036854775807

namespace MemorySource

/-- Puts a value under a path. A path that is there already keeps its spelling. -/
def put (path : String) (unit : Except String UnitRecord) :
    List (String × Except String UnitRecord) → List (String × Except String UnitRecord)
  | [] => [(path, unit)]
  | (key, old) :: rest =>
    match Path.order path key with
    | .lt => (path, unit) :: (key, old) :: rest
    | .eq => (key, unit) :: rest
    | .gt => (key, old) :: put path unit rest

/-- Adds or replaces a unit. -/
def insert (m : MemorySource) (u : UnitRecord) : MemorySource :=
  ⟨put u.indexFile (.ok u) m.units⟩

/-- Adds or replaces a unit that cannot be read. -/
def insertUnreadable (m : MemorySource) (indexFile reason : String) : MemorySource :=
  ⟨put indexFile (.error reason) m.units⟩

/-- Removes the unit under a path. -/
def remove (m : MemorySource) (indexFile : String) : MemorySource :=
  ⟨m.units.filter fun entry => !Path.same entry.1 indexFile⟩

/-- The source that holds some units, the later ones in place of the earlier ones. -/
def ofUnits (us : List UnitRecord) : MemorySource :=
  us.foldl insert {}

/-- How many units there are. -/
def size (m : MemorySource) : Nat :=
  m.units.length

/-- What a held unit is offered as. -/
def stampOf : String × Except String UnitRecord → UnitStamp
  | (_, .ok u) => u.unitStamp
  | (path, .error _) => ⟨path, unreadableStamp, none⟩

/-- Loads the unit under the path of a stamp. -/
def load (m : MemorySource) (u : UnitStamp) : Except Failure UnitRecord :=
  match m.units.find? fun entry => Path.same entry.1 u.indexFile with
  | some (_, .ok unit) => .ok unit
  | some (_, .error reason) => .error ((Defect.unreadable reason).failure u.indexFile)
  | none => .error (Defect.unavailable.failure u.indexFile)

/-- The units as a source. -/
def toSource (m : MemorySource) : Source where
  units := .ok (m.units.map stampOf)
  load := m.load

end MemorySource

end CrossIndex
