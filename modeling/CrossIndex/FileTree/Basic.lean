/-
A tree of files, directories and symbolic links. A file is known by a number, and a place of the
tree leads to it; it stays when that place is taken away, for those who hold its number.
-/
import CrossIndex.Path.Normal
import CrossIndex.Store.Basic

namespace CrossIndex

/-- Where a node lies: its names from the root on. -/
abbrev NodePath := List Path.Name

/-- What a file holds: bytes, or a saved store. -/
inductive Content where
  | bytes (data : List UInt8)
  | store (saved : Store)
  deriving Inhabited

/-- A file: what it holds, and when it was changed. -/
structure File where
  content : Content
  modified : Int := 0
  deriving Inhabited

/-- The number of a file. -/
abbrev FileId := Nat

/-- A node of the tree. -/
inductive Node where
  | file (id : FileId)
  | directory
  | link (target : String)
  deriving DecidableEq, Repr, Inhabited

/-- A tree of files. The root always is a directory. -/
structure FileTree where
  /-- The nodes below the root. -/
  nodes : List (NodePath × Node)
  /-- The files, each at its number. -/
  files : Array File
  /-- The working directory. -/
  current : NodePath
  deriving Inhabited

namespace FileTree

/-- The node at a place. -/
def node? (t : FileTree) (spot : NodePath) : Option Node :=
  if spot.isEmpty then some .directory else t.nodes.lookup spot

/-- Whether a directory lies at a place. -/
def isDirectoryAt (t : FileTree) (spot : NodePath) : Bool :=
  t.node? spot == some .directory

/-- The tree with a node put at a place. -/
def put (t : FileTree) (spot : NodePath) (n : Node) : FileTree :=
  { t with nodes := (spot, n) :: t.nodes.filter fun entry => entry.1 != spot }

/-- The tree without the node at a place. -/
def erase (t : FileTree) (spot : NodePath) : FileTree :=
  { t with nodes := t.nodes.filter fun entry => entry.1 != spot }

/-- The file with a number. -/
def file? (t : FileTree) (id : FileId) : Option File :=
  t.files[id]?

/-- The tree with another file under a number. -/
def setFile (t : FileTree) (id : FileId) (f : File) : FileTree :=
  { t with files := t.files.setIfInBounds id f }

/-- A new file, to which no place leads. -/
def addFile (t : FileTree) (f : File) : FileId × FileTree :=
  (t.files.size, { t with files := t.files.push f })

/-- A new file at a place. -/
def createFile (t : FileTree) (spot : NodePath) (f : File) : FileId × FileTree :=
  let (id, t) := t.addFile f
  (id, t.put spot (.file id))

/-- The text of a place. -/
def textOf (spot : NodePath) : String :=
  String.ofList ('/' :: Path.joined spot)

/-- How many bytes a name takes. -/
def nameSize (name : Path.Name) : Nat :=
  (String.ofList name).utf8ByteSize

/-- How many bytes a name may take. -/
def nameLimit : Nat := 255

/-- Where the names of a path start: at the root or at a given directory. -/
def origin (dir : NodePath) (path : String) : NodePath :=
  if Path.isAbsolute path.toList then [] else dir

end FileTree

end CrossIndex
