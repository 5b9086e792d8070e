/-
The entity that a name means at a place. Candidates are the references to and declarations of
entities of that name in the matching files. An exact hit comes first, then the nearest candidate,
then any declaration of the name; the last two are marked as approximations. Without a line, the
declaration in the matching files is the exact hit.
-/
import CrossIndex.Query.Entity
import CrossIndex.Query.File

namespace CrossIndex.Store

/-- The references to and declarations of entities of a name in some files, in reference order. -/
def candidates (s : Store) (name : String) (files : List SourceFile) : List Reference :=
  let inFiles := fun (id : Int) => files.any fun f => f.id == id
  let mentioned := s.references.filter fun r =>
    inFiles r.file && (s.entity? r.entity).any fun e => e.name == name
  let declared := s.entities.filter fun e =>
    e.name == name && e.decl.any fun p => inFiles p.file
  (mentioned.map s.reference ++ declared.map s.declarationReference).mergeSort fun a b =>
    (compare a b).isLE

/-- Whether a reference lies on a line, and in a column if one is given. -/
def isAt (line : Int) (column : Option Int) (r : Reference) : Bool :=
  r.line == line && column.all fun c => r.column == c

/-- The order of candidates by nearness: line distance, column distance, line, column, entity. -/
def byDistance (line column : Int) : Reference → Reference → Ordering :=
  compareLex (compareOn fun r => (r.line - line).natAbs) <|
  compareLex (compareOn fun r => (r.column - column).natAbs) <|
  compareLex (compareOn Reference.line) <|
  compareLex (compareOn Reference.column) (compareOn fun r => r.entity.id)

/-- The first of the least elements of a list. -/
def firstLeast (order : α → α → Ordering) : List α → Option α
  | [] => none
  | a :: rest =>
    match firstLeast order rest with
    | none => some a
    | some b => if (order a b).isLE then some a else some b

/-- The candidate at a position, or else the nearest one as an approximation. -/
def pick (candidates : List Reference) (line : Int) (column : Option Int) : Option Reference :=
  match candidates.find? (isAt line column) with
  | some r => some r
  | none =>
    (firstLeast (byDistance line (column.getD 1)) (candidates.filter fun r => 0 < r.line)).map
      Reference.asFuzzy

/-- The declaration of the first entity of a name, as an approximation. -/
def lookupByName (s : Store) (name : String) : Reference :=
  match s.entities.find? fun e => e.name == name with
  | some e => (s.declarationReference e).asFuzzy
  | none => Reference.null

/-- The reference that a name means at a place. -/
def resolve (canon : String → String) (s : Store) (name file : String) (line column : Option Int) :
    Reference :=
  if name.isEmpty then Reference.null
  else
    let found := s.candidates name (s.filesMatching canon file)
    let hit := match line with
      | some line => pick found line column
      | none => found.find? fun r => r.kindId == ReferenceKind.declarationId
    hit.getD (s.lookupByName name)

end CrossIndex.Store
