/-
Unit records as JSON values, with every field written in the order of the fields and null for what
is absent.
-/
import CrossIndex.Json.Printer
import CrossIndex.Record.Flags

namespace CrossIndex

open Json

/-- The value of something that may be absent. -/
def Json.orNull (write : α → Json) : Option α → Json
  | some a => write a
  | none => .null

/-- Writes a location. -/
def Location.toJson (l : Location) : Json :=
  object [("file", text l.file), ("line", .int l.line), ("column", .int l.column)]

/-- Writes an entity key. -/
def EntityKey.toJson (k : EntityKey) : Json :=
  object [("name", text k.name), ("decl", orNull Location.toJson k.decl)]

/-- Writes flags. -/
def EntityFlags.toJson (f : EntityFlags) : Json :=
  object (f.named.map fun flag => (flag.1, .bool flag.2))

/-- Writes a recorded entity. -/
def EntityRecord.toJson (r : EntityRecord) : Json :=
  object [("name", text r.name), ("kind", text r.kind), ("decl", orNull Location.toJson r.decl),
    ("flags", r.flags.toJson)]

/-- Writes a recorded reference. -/
def ReferenceRecord.toJson (r : ReferenceRecord) : Json :=
  object [("entity", r.entity.toJson), ("location", r.location.toJson),
    ("kind_id", text (String.ofList [r.kindId])), ("scope", orNull EntityKey.toJson r.scope)]

/-- Writes a parameter mode. -/
def ParameterKind.toJson (k : ParameterKind) : Json :=
  Json.text k.text

/-- Writes a recorded relation. -/
def RelationRecord.toJson (r : RelationRecord) : Json :=
  object [("from", r.source.toJson), ("to", r.target.toJson), ("kind", text r.kind),
    ("order", .int r.order), ("parameter_kind", orNull ParameterKind.toJson r.parameterKind)]

/-- Writes a unit stamp. -/
def UnitStamp.toJson (u : UnitStamp) : Json :=
  object [("index_file", text u.indexFile), ("stamp", .int u.stamp),
    ("checksum", orNull text u.checksum)]

/-- Writes a unit. -/
def UnitRecord.toJson (u : UnitRecord) : Json :=
  object [("index_file", text u.indexFile), ("stamp", .int u.stamp),
    ("checksum", orNull text u.checksum), ("source_files", .arr (u.sourceFiles.map text)),
    ("dependencies", .arr (u.dependencies.map text)),
    ("entities", .arr (u.entities.map EntityRecord.toJson)),
    ("references", .arr (u.references.map ReferenceRecord.toJson)),
    ("relations", .arr (u.relations.map RelationRecord.toJson))]

/-- The text of a unit on one line. -/
def UnitRecord.render (u : UnitRecord) : String :=
  u.toJson.render

/-- The text of a unit over several lines. -/
def UnitRecord.renderPretty (u : UnitRecord) : String :=
  u.toJson.renderPretty

end CrossIndex
