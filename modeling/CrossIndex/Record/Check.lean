/-
The check that a unit passes before anything of it is written: it has an index file, every entity it
mentions has a name and a valid declaration, every reference a valid location and a visible kind,
every relation a kind. The first defect in this order is the one reported.
-/
import CrossIndex.Failure
import CrossIndex.Text.Blank

namespace CrossIndex

/-- Checks a key. -/
def EntityKey.check (k : EntityKey) : Except Defect Unit :=
  if k.name.isEmpty then .error .emptyName
  else match k.decl with
    | some place => if place.isValid then .ok () else .error (.invalidDeclaration k.name place)
    | none => .ok ()

/-- Checks a recorded reference: its entity, its scope, its location, its kind. -/
def ReferenceRecord.check (r : ReferenceRecord) : Except Defect Unit := do
  r.entity.check
  match r.scope with
  | some scope => scope.check
  | none => pure ()
  if !r.location.isValid then throw (.invalidLocation r.entity.name r.location)
  if Text.isBlank r.kindId || Text.isControl r.kindId then throw (.noReferenceKind r.entity.name)

/-- Checks a recorded relation: its ends, its kind. -/
def RelationRecord.check (r : RelationRecord) : Except Defect Unit := do
  r.source.check
  r.target.check
  if r.kind.isEmpty then throw (.noRelationKind r.source.name)

/-- Checks a unit. -/
def UnitRecord.check (u : UnitRecord) : Except Defect Unit := do
  if u.indexFile.isEmpty then throw .noIndexFile
  u.entities.forM fun r => r.key.check
  u.references.forM ReferenceRecord.check
  u.relations.forM RelationRecord.check

end CrossIndex
