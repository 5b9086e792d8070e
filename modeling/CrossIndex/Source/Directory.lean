/-
Unit records in the files of a directory. Every file below the directory whose name ends in
`.xref.json` holds one record as JSON text. Entries are visited depth first and in the order of
their names, links followed. An entry that cannot be followed, because its link is broken or leads
back to a directory above it, is offered as unreadable if its name is that of a record.
-/
import CrossIndex.Digest.Sha256
import CrossIndex.FileTree.Lookup
import CrossIndex.Record.Reader
import CrossIndex.Source.Memory

namespace CrossIndex

/-- The unit records in the files of a directory of a tree. -/
structure DirectorySource where
  tree : FileTree
  root : String
  deriving Inhabited

namespace DirectorySource

/-- Whether a name is that of a record. -/
def isRecordName (name : Path.Name) : Bool :=
  ".xref.json".toList.isSuffixOf name

/-- The path of an entry of a directory. -/
def childPath (dir : String) (name : Path.Name) : String :=
  let cs := dir.toList
  if cs.isEmpty || cs.getLast? == some '/' then String.ofList (cs ++ name)
  else String.ofList (cs ++ '/' :: name)

/-- The bytes that stand for a content. -/
def bytesOf : Content → List UInt8
  | .bytes data => data
  | .store _ => []

/-- What a readable file is offered as: its time of change in seconds, and its digest. -/
def stampOf (path : String) (f : File) : UnitStamp :=
  ⟨path, max f.modified 0, some (Digest.sha256 (bytesOf f.content))⟩

/-- What an entry that cannot be followed is offered as. -/
def unreadable (path : String) (name : Path.Name) : List UnitStamp :=
  if isRecordName name then [⟨path, unreadableStamp, none⟩] else []

/-- What a file is offered as. -/
def fileStamps (path : String) (name : Path.Name) (f : Option File) : List UnitStamp :=
  if isRecordName name then (f.map (stampOf path)).toList else []

/-- The units below a directory, with the places of the directories above. -/
def walk (t : FileTree) : Nat → List NodePath → String → NodePath → List UnitStamp
  | 0, _, _, _ => []
  | fuel + 1, above, dirPath, dir =>
    (t.entries dir).flatMap fun name =>
      let path := childPath dirPath name
      match t.node? (dir ++ [name]) with
      | none => []
      | some .directory => walk t fuel ((dir ++ [name]) :: above) path (dir ++ [name])
      | some (.file id) => fileStamps path name (t.file? id)
      | some (.link _) =>
        match t.follow false FileTree.linkLimit dir [name] with
        | .error _ => unreadable path name
        | .ok spot =>
          match t.node? spot with
          | some .directory =>
            if above.contains spot then unreadable path name
            else walk t fuel (spot :: above) path spot
          | some (.file id) => fileStamps path name (t.file? id)
          | _ => unreadable path name

/-- The units of the source. No directory lies above itself more than twice, so the number of nodes
bounds the depth. -/
def units (d : DirectorySource) : Except Failure (List UnitStamp) :=
  match d.tree.isDirectory d.root, d.tree.resolve d.root with
  | true, .ok dir => .ok (walk d.tree (2 * d.tree.nodes.length + 2) [dir] d.root dir)
  | _, _ => .error (Failure.of .io ("index directory " ++ d.root ++ " not found"))

/-- The text that bytes hold in UTF-8. -/
def textOf? (data : List UInt8) : Option String :=
  String.fromUTF8? (ByteArray.mk data.toArray)

/-- The record that a file holds. -/
def recordAt? (d : DirectorySource) (path : String) : Option UnitRecord := do
  match ← d.tree.lookupFile path with
  | ⟨.bytes data, _⟩ => UnitRecord.ofText? (← textOf? data)
  | _ => none

/-- A record under the identity and freshness of its stamp. -/
def identified (u : UnitStamp) (r : UnitRecord) : UnitRecord :=
  { r with indexFile := u.indexFile, stamp := u.stamp, checksum := u.checksum }

/-- Loads a record; its stamp decides on its identity and freshness. Of a record that cannot be read it is
told that it cannot, while the text of what went wrong, be it in the file or in the parser, is left out. -/
def load (d : DirectorySource) (u : UnitStamp) : Except Failure UnitRecord :=
  match d.recordAt? u.indexFile with
  | some r => .ok (identified u r)
  | none => .error ((Defect.unreadable "unreadable").failure u.indexFile)

/-- The files as a source. -/
def toSource (d : DirectorySource) : Source :=
  ⟨d.units, d.load⟩

end DirectorySource

end CrossIndex
