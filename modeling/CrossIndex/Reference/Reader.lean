/-
References and reference kinds from JSON values.
-/
import CrossIndex.Json.Fields
import CrossIndex.Reference.Basic

namespace CrossIndex

open Json

/-- Reads an entity handle. -/
def Entity.ofJson? (j : Json) : Option Entity := do
  match ← fields? ["id", "fuzzy"] j with
  | [id, fuzzy] => return ⟨← required int64? id, ← required asBool? fuzzy⟩
  | _ => failure

/-- Reads a source file. -/
def SourceFile.ofJson? (j : Json) : Option SourceFile := do
  match ← fields? ["path", "id"] j with
  | [path, id] => return ⟨← required int64? id, ← required asText? path⟩
  | _ => none

/-- Reads a reference; only its file may be missing or null. -/
def Reference.ofJson? (j : Json) : Option Reference := do
  match ← fields? ["entity", "file", "line", "column", "kind", "kind_id", "scope",
    "is_end_of_scope"] j with
  | [entity, file, line, column, kind, kindId, scope, isEnd] =>
    return {
      entity := ← required Entity.ofJson? entity
      file := ← optional SourceFile.ofJson? file
      line := ← required int32? line
      column := ← required int32? column
      kind := ← required asText? kind
      kindId := ← required char? kindId
      scope := ← required Entity.ofJson? scope
      isEndOfScope := ← required asBool? isEnd }
  | _ => none

/-- Reads the attributes of a kind; a missing attribute is off. -/
def KindAttributes.ofJson? (j : Json) : Option KindAttributes := do
  let names := ["is_real", "is_read", "is_write", "is_end", "is_implicit", "is_dispatching",
    "show_in_callgraph"]
  match ← (← fields? names j).mapM (defaulting false asBool?) with
  | [a, b, c, d, e, f, g] => return ⟨a, b, c, d, e, f, g⟩
  | _ => none

/-- Reads a reference kind. -/
def ReferenceKind.ofJson? (j : Json) : Option ReferenceKind := do
  match ← fields? ["id", "display", "attrs"] j with
  | [id, display, attributes] =>
    return ⟨← required char? id, ← required asText? display,
      ← required KindAttributes.ofJson? attributes⟩
  | _ => none

end CrossIndex
