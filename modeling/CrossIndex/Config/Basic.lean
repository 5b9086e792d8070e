/-
Settings of a database: their defaults, their ranges, and their written form.
-/
import CrossIndex.Failure

namespace CrossIndex

/-- The settings of a database. -/
structure Config where
  /-- An update with at least this many stale units is staged on a copy. -/
  stagingThreshold : Nat := 100
  /-- How much of a store one step of a copy takes; -1 takes all of it. -/
  backupPagesPerStep : Int := -1
  /-- Whether units that are no longer offered are removed. -/
  pruneMissingUnits : Bool := true
  /-- The distance between tab stops. -/
  tabWidth : Nat := 8
  deriving DecidableEq, Repr, Inhabited

namespace Config

/-- Checks the ranges, field by field. -/
def validate (c : Config) : Except ConfigError Unit :=
  if c.stagingThreshold = 0 then
    .error (.range "staging_threshold" c.stagingThreshold 1 18446744073709551615
      "Use 1 to always stage, or a large value to never stage")
  else if c.backupPagesPerStep = 0 ∨ c.backupPagesPerStep < -1 ∨ c.backupPagesPerStep > 100000 then
    .error (.range "backup_pages_per_step" c.backupPagesPerStep (-1) 100000
      "Use -1 to copy in a single step (0 is not allowed)")
  else if c.tabWidth = 0 ∨ c.tabWidth > 64 then
    .error (.range "tab_width" c.tabWidth 1 64 "Use 8 for standard tab stops")
  else .ok ()

/-- A truth value in written settings. -/
def boolText (b : Bool) : String :=
  if b then "true" else "false"

/-- The settings as a document with one field a line. -/
def render (c : Config) : String :=
  "staging_threshold: " ++ Text.decimal c.stagingThreshold ++ "\n" ++
    "backup_pages_per_step: " ++ Text.decimal c.backupPagesPerStep ++ "\n" ++
    "prune_missing_units: " ++ boolText c.pruneMissingUnits ++ "\n" ++
    "tab_width: " ++ Text.decimal c.tabWidth ++ "\n"

end Config

end CrossIndex
