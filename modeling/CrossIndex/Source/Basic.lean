/-
Where unit records come from: a source offers units by their freshness and loads one on demand.
-/
import CrossIndex.Failure

namespace CrossIndex

/-- A supplier of unit records. -/
structure Source where
  /-- The units that are available. -/
  units : Except Failure (List UnitStamp)
  /-- Loads the record of an offered unit. -/
  load : UnitStamp → Except Failure UnitRecord

namespace Source

/-- The source that offers one more unit at the end. -/
def offering (src : Source) (extra : UnitStamp) : Source :=
  { src with units := src.units.map fun us => us ++ [extra] }

/-- The source on which loading the unit with an index file fails. -/
def failingAt (src : Source) (indexFile : String) (f : Failure) : Source :=
  { src with
    load := fun u => if Path.same u.indexFile indexFile then .error f else src.load u }

end Source

end CrossIndex
