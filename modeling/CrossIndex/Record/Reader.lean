/-
Unit records from JSON values and from JSON text. Every field of a unit has a default, and so have
the flags of an entity; declaration, scope, checksum and parameter mode may be missing or null.
-/
import CrossIndex.Json.Fields
import CrossIndex.Json.Parser
import CrossIndex.Record.Basic

namespace CrossIndex

open Json

/-- Reads a location. -/
def Location.ofJson? (j : Json) : Option Location := do
  match ← fields? ["file", "line", "column"] j with
  | [file, line, column] =>
    return ⟨← required asText? file, ← required int32? line, ← required int32? column⟩
  | _ => none

/-- Reads an entity key. -/
def EntityKey.ofJson? (j : Json) : Option EntityKey := do
  match ← fields? ["name", "decl"] j with
  | [name, decl] => return ⟨← required asText? name, ← optional Location.ofJson? decl⟩
  | _ => none

/-- The names of the flags, in the order of the fields. -/
def EntityFlags.names : List String :=
  ["is_subprogram", "is_container", "is_abstract", "is_generic", "is_access", "is_type",
    "is_array", "is_printable", "is_global", "is_static_local", "has_methods",
    "body_is_full_declaration"]

/-- Reads flags; a missing flag is off. -/
def EntityFlags.ofJson? (j : Json) : Option EntityFlags := do
  match ← (← fields? EntityFlags.names j).mapM (defaulting false asBool?) with
  | [a, b, c, d, e, f, g, h, i, k, l, m] => return ⟨a, b, c, d, e, f, g, h, i, k, l, m⟩
  | _ => none

/-- Reads a recorded entity. -/
def EntityRecord.ofJson? (j : Json) : Option EntityRecord := do
  match ← fields? ["name", "kind", "decl", "flags"] j with
  | [name, kind, decl, flags] =>
    return ⟨← required asText? name, ← required asText? kind, ← optional Location.ofJson? decl,
      ← defaulting {} EntityFlags.ofJson? flags⟩
  | _ => none

/-- Reads a recorded reference. -/
def ReferenceRecord.ofJson? (j : Json) : Option ReferenceRecord := do
  match ← fields? ["entity", "location", "kind_id", "scope"] j with
  | [entity, location, kindId, scope] =>
    return ⟨← required EntityKey.ofJson? entity, ← required Location.ofJson? location,
      ← required char? kindId, ← optional EntityKey.ofJson? scope⟩
  | _ => none

/-- Reads a parameter mode: its text, or an object that gives its text a null. -/
def ParameterKind.ofJson? : Json → Option ParameterKind
  | .str (some s) => ParameterKind.ofText? s
  | .obj [(some s, .null)] => ParameterKind.ofText? s
  | _ => none

/-- Reads a recorded relation. -/
def RelationRecord.ofJson? (j : Json) : Option RelationRecord := do
  match ← fields? ["from", "to", "kind", "order", "parameter_kind"] j with
  | [source, target, kind, order, parameterKind] =>
    return ⟨← required EntityKey.ofJson? source, ← required EntityKey.ofJson? target,
      ← required asText? kind, ← defaulting 0 int32? order,
      ← optional ParameterKind.ofJson? parameterKind⟩
  | _ => none

/-- Reads a unit stamp. -/
def UnitStamp.ofJson? (j : Json) : Option UnitStamp := do
  match ← fields? ["index_file", "stamp", "checksum"] j with
  | [indexFile, stamp, checksum] =>
    return ⟨← required asText? indexFile, ← required int64? stamp, ← optional asText? checksum⟩
  | _ => none

/-- The names of the fields of a unit, in their order. -/
def UnitRecord.names : List String :=
  ["index_file", "stamp", "checksum", "source_files", "dependencies", "entities", "references",
    "relations"]

/-- Reads a unit. -/
def UnitRecord.ofJson? (j : Json) : Option UnitRecord := do
  match ← fields? UnitRecord.names j with
  | [indexFile, stamp, checksum, sourceFiles, dependencies, entities, references, relations] =>
    return {
      indexFile := ← defaulting "" asText? indexFile
      stamp := ← defaulting 0 int64? stamp
      checksum := ← optional asText? checksum
      sourceFiles := ← defaulting [] (list? asText?) sourceFiles
      dependencies := ← defaulting [] (list? asText?) dependencies
      entities := ← defaulting [] (list? EntityRecord.ofJson?) entities
      references := ← defaulting [] (list? ReferenceRecord.ofJson?) references
      relations := ← defaulting [] (list? RelationRecord.ofJson?) relations }
  | _ => none

/-- Reads a unit from JSON text. -/
def UnitRecord.ofText? (s : String) : Option UnitRecord := do
  UnitRecord.ofJson? (← Json.parse? s)

end CrossIndex
