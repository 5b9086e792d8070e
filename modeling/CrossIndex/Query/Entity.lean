/-
One step of navigation from an entity: its declaration, references, calls, relations and parameters.
An id that names no entity has no answers. Lists of references are in the order of path texts, lines
and columns; rows that agree in all that the order looks at stay in insertion order.
-/
import CrossIndex.IdSet
import CrossIndex.Query.Kind

namespace CrossIndex.Store

/-- A stored reference as queries return it. -/
def reference (s : Store) (r : ReferenceRow) : Reference where
  entity := Entity.ofId r.entity
  file := s.file? r.file
  line := r.line
  column := r.column
  kind := s.display r.kindId
  kindId := r.kindId
  scope := Entity.ofId? r.scope
  isEndOfScope := (s.attributes r.kindId).isEnd

/-- The declaration of an entity as a reference. -/
def declarationReference (s : Store) (e : EntityRow) : Reference where
  entity := Entity.ofId e.id
  file := e.decl.bind fun p => s.file? p.file
  line := match e.decl with
    | some p => p.line
    | none => -1
  column := match e.decl with
    | some p => p.column
    | none => -1
  kind := s.declarationDisplay
  kindId := ReferenceKind.declarationId
  scope := Entity.none
  isEndOfScope := false

/-- The declaration of an entity. -/
def declaration (s : Store) (id : Int) : Declaration :=
  match s.entity? id with
  | some e => ⟨e.name, e.kind, s.declarationReference e, e.flags⟩
  | none => Declaration.none

/-- The order of references by place: path text, line, column. -/
def byPlace : Reference → Reference → Ordering :=
  compareLex (compareOn Reference.pathText) <|
  compareLex (compareOn Reference.line) (compareOn Reference.column)

/-- The order of references by place, kind and entity. -/
def byPlaceAndKind : Reference → Reference → Ordering :=
  compareLex byPlace <|
  compareLex (compareOn Reference.kindId) (compareOn fun r => r.entity.id)

/-- The order of references by place and entity. -/
def byPlaceAndEntity : Reference → Reference → Ordering :=
  compareLex byPlace (compareOn fun r => r.entity.id)

/-- References in an order; those that are equal in it keep their places. -/
def sorted (order : Reference → Reference → Ordering) (rs : List Reference) : List Reference :=
  rs.mergeSort fun a b => (order a b).isLE

/-- The references to an entity and its declaration, before they are put in order. -/
def mentions (s : Store) (id : Int) : List Reference :=
  (s.references.filter fun r => r.entity == id).map s.reference ++
    (s.entities.filter fun e => e.id == id && e.decl.isSome).map s.declarationReference

/-- Every reference to an entity, its declaration included. -/
def referencesTo (s : Store) (id : Int) : List Reference :=
  sorted byPlaceAndKind (s.mentions id)

/-- The bodies and completions of an entity. -/
def bodies (s : Store) (id : Int) : List Reference :=
  sorted byPlace ((s.references.filter fun r =>
    r.entity == id && ReferenceKind.isBody r.kindId).map s.reference)

/-- The stored calls within an entity. -/
def callRows (s : Store) (id : Int) : List ReferenceRow :=
  s.references.filter fun r => r.scope == some id && s.isCall r.kindId

/-- The entities that are called within an entity. -/
def calls (s : Store) (id : Int) : List Entity :=
  (IdSet.ofList ((s.callRows id).map ReferenceRow.entity)).map Entity.ofId

/-- The calls within an entity. -/
def callSites (s : Store) (id : Int) : List Reference :=
  sorted byPlaceAndEntity ((s.callRows id).map s.reference)

/-- The entities that call an entity. -/
def callers (s : Store) (id : Int) : List Entity :=
  (IdSet.ofList ((s.references.filter fun r => r.entity == id && s.isCall r.kindId).filterMap
    ReferenceRow.scope)).map Entity.ofId

/-- The relations of a kind that leave an entity. -/
def relationsFrom (s : Store) (id : Int) (kind : String) : List RelationRow :=
  s.relations.filter fun r => r.source == id && r.kind == kind

/-- The smallest order among the relations to a target. -/
def leastOrder (rows : List RelationRow) (target : Int) : Option Int :=
  ((rows.filter fun r => r.target == target).map RelationRow.order).min?

/-- The targets of relations of a kind, each once, by their smallest order and then by id. -/
def relatedFrom (s : Store) (id : Int) (kind : String) : List Entity :=
  let rows := s.relationsFrom id kind
  let targets := IdSet.ofList (rows.map RelationRow.target)
  (targets.mergeSort fun a b =>
    (compareLex (compareOn (leastOrder rows)) compare a b).isLE).map Entity.ofId

/-- The sources of relations of a kind that arrive at an entity, by id. -/
def relatedTo (s : Store) (id : Int) (kind : String) : List Entity :=
  (IdSet.ofList ((s.relations.filter fun r => r.target == id && r.kind == kind).map
    RelationRow.source)).map Entity.ofId

/-- The first of some entities. -/
def firstOf (es : List Entity) : Entity :=
  es.headD Entity.none

/-- The types that a type derives from. -/
def parentTypes (s : Store) (id : Int) : List Entity := s.relatedFrom id "parent_type"

/-- The types that derive from a type. -/
def childTypes (s : Store) (id : Int) : List Entity := s.relatedTo id "parent_type"

/-- The operation that an operation overrides. -/
def overrides (s : Store) (id : Int) : Entity := firstOf (s.relatedFrom id "overrides")

/-- The operations that override an operation. -/
def overriddenBy (s : Store) (id : Int) : List Entity := s.relatedTo id "overrides"

/-- The entity that an entity renames. -/
def renamingOf (s : Store) (id : Int) : Entity := firstOf (s.relatedFrom id "renames")

/-- The generic that an entity is an instance of. -/
def instanceOf (s : Store) (id : Int) : Entity := firstOf (s.relatedFrom id "instance_of")

/-- The instances of a generic. -/
def instantiations (s : Store) (id : Int) : List Entity := s.relatedTo id "instance_of"

/-- The primitive operations of a type. -/
def methods (s : Store) (id : Int) : List Entity := s.relatedFrom id "has_primitive"

/-- The fields of a type. -/
def fields (s : Store) (id : Int) : List Entity := s.relatedFrom id "has_field"

/-- The discriminants of a type. -/
def discriminants (s : Store) (id : Int) : List Entity := s.relatedFrom id "has_discriminant"

/-- The literals of a type. -/
def literals (s : Store) (id : Int) : List Entity := s.relatedFrom id "has_literal"

/-- The formal parameters of a subprogram, by order and then by id, one for each relation. -/
def formalParameters (s : Store) (id : Int) : List Parameter :=
  ((s.relationsFrom id "has_parameter").mergeSort fun a b =>
    (compareLex (compareOn RelationRow.order) (compareOn RelationRow.target) a b).isLE).map fun r =>
      ⟨Entity.ofId r.target, r.parameterKind.getD .input⟩

/-- The subprogram that declares a parameter. -/
def parameterOf (s : Store) (id : Int) : Entity := firstOf (s.relatedTo id "has_parameter")

/-- The type that an access type designates. -/
def pointedType (s : Store) (id : Int) : Entity := firstOf (s.relatedFrom id "pointed_type")

/-- The component type of an array type. -/
def componentType (s : Store) (id : Int) : Entity := firstOf (s.relatedFrom id "component_type")

/-- The entities with a name, by id. -/
def entitiesNamed (s : Store) (name : String) : List Entity :=
  (IdSet.ofList ((s.entities.filter fun e => e.name == name).map EntityRow.id)).map Entity.ofId

end CrossIndex.Store
