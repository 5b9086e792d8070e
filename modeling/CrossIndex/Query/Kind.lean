/-
Questions about reference kinds. An unknown kind has no attribute.
-/
import CrossIndex.Store.Basic

namespace CrossIndex.Store

/-- The attributes of a kind. -/
def attributes (s : Store) (kindId : Char) : KindAttributes :=
  match s.kind? kindId with
  | some kind => kind.attributes
  | none => {}

/-- The display text of a kind; an unknown kind is displayed by its id. -/
def display (s : Store) (kindId : Char) : String :=
  match s.kind? kindId with
  | some kind => kind.display
  | none => String.ofList [kindId]

/-- The display text of declarations. -/
def declarationDisplay (s : Store) : String :=
  match s.kind? ReferenceKind.declarationId with
  | some kind => kind.display
  | none => ReferenceKind.declarationDisplay

/-- Whether references of a kind are edges of the call graph. -/
def isCall (s : Store) (kindId : Char) : Bool :=
  (s.attributes kindId).showInCallgraph

/-- Whether a reference reads or writes the entity. -/
def isReadOrWrite (s : Store) (kindId : Char) : Bool :=
  (s.attributes kindId).isRead || (s.attributes kindId).isWrite

/-- All kinds, by id. -/
def allKinds (s : Store) : List ReferenceKind :=
  s.kinds.mergeSort fun a b => (compare a.id b.id).isLE

/-- The kinds whose references place the name of the entity, by display text and id. -/
def realKinds (s : Store) : List ReferenceKind :=
  (s.kinds.filter fun k => k.attributes.isReal).mergeSort fun a b =>
    (compareLex (compareOn ReferenceKind.display) (compareOn ReferenceKind.id) a b).isLE

end CrossIndex.Store
