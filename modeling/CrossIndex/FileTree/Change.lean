/-
Changes to a tree of files: files are written, directories and links are made, files and links are
removed.
-/
import CrossIndex.FileTree.Lookup

namespace CrossIndex.FileTree

/-- The directories that lie above a place, outermost first. -/
def above (spot : NodePath) : List NodePath :=
  (List.range spot.length).map fun n => spot.take n

/-- The tree with a directory at a place and at all places above it. -/
def makeDirectory (t : FileTree) (spot : NodePath) : FileTree :=
  (above spot ++ [spot]).foldl (fun t d => if (t.node? d).isSome then t else t.put d .directory) t

/-- The tree with nothing but some directories and those above them; the first is the working
directory. -/
def ofDirectories (current : NodePath) (others : List NodePath) : FileTree :=
  (current :: others).foldl makeDirectory ⟨[], #[], current⟩

/-- The names of the place that a path spells, links apart. -/
def spelled (t : FileTree) (path : String) : NodePath :=
  (Path.segments path.toList).foldl (fun spot name =>
    if name = [] ∨ name = Path.here then spot
    else if name = Path.up then spot.dropLast
    else spot ++ [name]) (origin t.current path)

/-- The place where the last name of a path stands: links are followed in all names but the last. -/
def entry (t : FileTree) (path : String) : NodePath :=
  let spot := t.spelled path
  match t.resolve (textOf spot.dropLast) with
  | .ok dir => dir ++ spot.drop (spot.length - 1)
  | .error _ => spot

/-- Puts a file at a place. A file that is there already keeps its number. -/
def writeAt (t : FileTree) (spot : NodePath) (f : File) : FileTree :=
  match t.node? spot with
  | some (.file id) => t.setFile id f
  | _ => (t.createFile spot f).2

/-- Writes a file and makes the directories above it. -/
def writeFile (t : FileTree) (path : String) (data : List UInt8) (modified : Int) : FileTree :=
  let t := if t.contains (textOf (t.spelled path).dropLast) then t
    else t.makeDirectory (t.spelled path).dropLast
  match t.locate path with
  | .ok spot => t.writeAt spot ⟨.bytes data, modified⟩
  | .error _ => t

/-- Makes a directory and those above it. -/
def mkdir (t : FileTree) (path : String) : FileTree :=
  if t.contains path then t else t.makeDirectory (t.spelled path)

/-- Makes a symbolic link. -/
def symlink (t : FileTree) (path target : String) : FileTree :=
  let spot := t.entry path
  if (t.node? spot).isSome then t else t.put spot (.link target)

/-- Removes a file or a link. -/
def removeFile (t : FileTree) (path : String) : FileTree :=
  let spot := t.entry path
  if t.isDirectoryAt spot then t else t.erase spot

end CrossIndex.FileTree
