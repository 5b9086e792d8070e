/-
Settings from a JSON value. Every field has a default and no other field is allowed.
-/
import CrossIndex.Config.Basic
import CrossIndex.Json.Fields

namespace CrossIndex.Config

open Json

/-- The names of the fields, in their order. -/
def names : List String :=
  ["staging_threshold", "backup_pages_per_step", "prune_missing_units", "tab_width"]

/-- Whether an object has only members with names of settings. -/
def onlyKnown : Json → Bool
  | .obj members => members.all fun member => member.1.any fun name => names.contains name
  | _ => true

/-- Reads settings. -/
def ofJson? (j : Json) : Option Config := do
  if !onlyKnown j then none
  else
    match ← fields? names j with
    | [threshold, pages, prune, tab] =>
      return {
        stagingThreshold := ← defaulting 100 nat64? threshold
        backupPagesPerStep := ← defaulting (-1) int32? pages
        pruneMissingUnits := ← defaulting true asBool? prune
        tabWidth := ← defaulting 8 nat32? tab }
    | _ => none

end CrossIndex.Config
