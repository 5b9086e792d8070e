/-
Failures. A failure has a kind, a message and possibly an underlying cause; failures of the storage
end the operation they occur in, all others concern one unit. Defects are what can be wrong with one
unit; configuration errors are what can be wrong with settings.
-/
import CrossIndex.Record.Basic

namespace CrossIndex

/-- The kinds of failures. -/
inductive FailureKind where
  | database
  | serialization
  | io
  | config
  | sourceDefect
  | internal
  deriving DecidableEq, Repr, Inhabited

namespace FailureKind

/-- The written form of a kind. -/
def text : FailureKind → String
  | .database => "database"
  | .serialization => "serialization"
  | .io => "io"
  | .config => "config"
  | .sourceDefect => "source_defect"
  | .internal => "internal"

/-- All kinds. -/
def all : List FailureKind :=
  [.database, .serialization, .io, .config, .sourceDefect, .internal]

/-- The kind with a written form. -/
def ofText? (s : String) : Option FailureKind :=
  all.find? fun k => k.text == s

end FailureKind

/-- A failure of an operation. -/
structure Failure where
  kind : FailureKind
  message : String
  /-- The text of the underlying cause, if there is one. -/
  cause : Option String := none
  deriving DecidableEq, Repr, Inhabited

namespace Failure

/-- A failure of a kind with a message. -/
def of (kind : FailureKind) (message : String) : Failure := ⟨kind, message, none⟩

/-- The failure together with the text of what caused it. -/
def causedBy (f : Failure) (cause : String) : Failure := { f with cause := some cause }

/-- A failed file operation. -/
def ofFileOperation (text : String) : Failure :=
  (of .io ("I/O error: " ++ text)).causedBy text

/-- A failed statement on the tables of a store. -/
def ofStatement (text : String) : Failure :=
  (of .database ("SQLite error: " ++ text)).causedBy text

/-- A defect of the unit with an index file. -/
def sourceDefect (indexFile message : String) : Failure :=
  of .sourceDefect (indexFile ++ ": " ++ message)

/-- Whether a failure is one of the storage, which ends the operation it occurs in. -/
def isStorage (f : Failure) : Bool :=
  f.kind == .database || f.kind == .io

/-- A failure as it is reported. -/
def display (f : Failure) : String :=
  "[" ++ f.kind.text ++ "] " ++ f.message

end Failure

/-- A failure of the storage. -/
abbrev StorageFailure := { f : Failure // f.isStorage = true }

/-- What can be wrong with one unit. -/
inductive Defect where
  | noIndexFile
  | emptyName
  | invalidDeclaration (name : String) (place : Location)
  | invalidLocation (name : String) (place : Location)
  | noReferenceKind (name : String)
  | noRelationKind (name : String)
  /-- The unit was offered and is gone. -/
  | unavailable
  /-- The record of the unit cannot be read. -/
  | unreadable (reason : String)
  deriving DecidableEq, Repr, Inhabited

/-- The wording of a defect. -/
def Defect.message : Defect → String
  | .noIndexFile => "unit has no index file"
  | .emptyName => "entity with empty name"
  | .invalidDeclaration name place =>
    "entity " ++ name ++ " has invalid declaration " ++ place.display
  | .invalidLocation name place =>
    "reference to " ++ name ++ " has invalid location " ++ place.display
  | .noReferenceKind name => "reference to " ++ name ++ " has no kind"
  | .noRelationKind name => "relation from " ++ name ++ " has no kind"
  | .unavailable => "unit no longer available"
  | .unreadable reason => reason

/-- The failure of a unit with a defect. -/
def Defect.failure (indexFile : String) (d : Defect) : Failure :=
  Failure.sourceDefect indexFile d.message

/-- What can be wrong with settings. -/
inductive ConfigError where
  /-- A value lies outside its range, which the hint explains. -/
  | range (field : String) (value least greatest : Int) (hint : String)
  /-- The text is no document of settings. -/
  | document
  /-- The file with the settings cannot be read. -/
  | file
  deriving DecidableEq, Repr, Inhabited

/-- The wording of a configuration error. -/
def ConfigError.message : ConfigError → String
  | .range field value least greatest hint =>
    "Invalid range for field '" ++ field ++ "': " ++ Text.decimal value ++ " not in " ++
      Text.decimal least ++ "..=" ++ Text.decimal greatest ++ ". " ++ hint
  | .document => "settings are not a document of known fields"
  | .file => "settings file cannot be read"

/-- A configuration error as a failure. -/
def ConfigError.failure (e : ConfigError) : Failure :=
  Failure.of .config e.message

end CrossIndex
