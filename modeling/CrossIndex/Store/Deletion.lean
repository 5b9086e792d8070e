/-
Deletions and what they take along. Deleting an entity deletes the references to it and the
relations it takes part in, whichever unit recorded them, and clears the scopes that name it.
Deleting a unit deletes its rows and the entities it owns.
-/
import CrossIndex.Store.Basic

namespace CrossIndex.Store

/-- Deletes the entities that a test selects by id. -/
def deleteEntities (s : Store) (gone : Int → Bool) : Store :=
  { s with
    entities := s.entities.filter fun e => !gone e.id
    references := (s.references.filter fun r => !gone r.entity).map fun r =>
      if r.scope.any gone then { r with scope := none } else r
    relations := s.relations.filter fun r => !(gone r.source || gone r.target) }

/-- Deletes the references, relations and dependencies that a unit recorded. -/
def deleteUnitRows (s : Store) (unit : Int) : Store :=
  { s with
    references := s.references.filter fun r => r.unit != unit
    relations := s.relations.filter fun r => r.unit != unit
    dependencies := s.dependencies.filter fun d => d.unit != unit }

/-- The ids of the entities that a unit owns. -/
def ownedBy (s : Store) (unit : Int) : List Int :=
  (s.entities.filter fun e => e.owner == some unit).map EntityRow.id

/-- Deletes a unit with all that it owns. -/
def deleteUnit (s : Store) (unit : Int) : Store :=
  let owned := s.ownedBy unit
  let s := (s.deleteUnitRows unit).deleteEntities fun id => owned.contains id
  { s with units := s.units.filter fun u => u.id != unit }

/-- Whether a reference or a relation mentions an entity. -/
def isMentioned (s : Store) (id : Int) : Bool :=
  s.references.any (fun r => r.entity == id || r.scope == some id) ||
    s.relations.any fun r => r.source == id || r.target == id

/-- Whether an entity is an orphan: nobody owns it, it was not inserted explicitly and nothing
mentions it. -/
def isOrphan (s : Store) (e : EntityRow) : Bool :=
  e.owner.isNone && !e.dynamic && !s.isMentioned e.id

/-- Deletes the orphans. -/
def purgeOrphans (s : Store) : Store :=
  let orphans := (s.entities.filter s.isOrphan).map EntityRow.id
  s.deleteEntities fun id => orphans.contains id

end CrossIndex.Store
