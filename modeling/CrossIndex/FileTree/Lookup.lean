/-
What paths name in a tree of files. Paths are followed from the root, or from the working directory
when they are relative; links are followed, up to a limit.
-/
import CrossIndex.FileTree.Basic

namespace CrossIndex

/-- Why a path does not resolve. -/
inductive PathError where
  | notFound
  | notDirectory
  | isDirectory
  | nameTooLong
  | tooManyLinks
  | zeroByte
  deriving DecidableEq, Repr, Inhabited

/-- The system's wording of a path error. -/
def PathError.message : PathError → String
  | .notFound => "No such file or directory (os error 2)"
  | .notDirectory => "Not a directory (os error 20)"
  | .isDirectory => "Is a directory (os error 21)"
  | .nameTooLong => "File name too long (os error 36)"
  | .tooManyLinks => "Too many levels of symbolic links (os error 40)"
  | .zeroByte => "file name contained an unexpected NUL byte"

namespace FileTree

/-- How many links a resolution follows. -/
def linkLimit : Nat := 40

/-- How many bytes a path may take. -/
def pathLimit : Nat := 4095

/-- Follows names from a directory. With `create`, the last name may be missing, and no slash may
follow it, since that would ask for a directory. -/
def follow (t : FileTree) (create : Bool) (links : Nat) (dir : NodePath) :
    List Path.Name → Except PathError NodePath
  | [] => .ok dir
  | name :: names =>
    match t.node? dir with
    | some .directory =>
      if name = [] ∨ name = Path.here then follow t create links dir names
      else if name = Path.up then follow t create links dir.dropLast names
      else if create && !names.isEmpty && names.all List.isEmpty then .error .isDirectory
      else if nameLimit < nameSize name then .error .nameTooLong
      else
        match t.node? (dir ++ [name]) with
        | none => if create && names.isEmpty then .ok (dir ++ [name]) else .error .notFound
        | some (.link target) =>
          match links with
          | 0 => .error .tooManyLinks
          | links + 1 =>
            follow t create links (origin dir target) (Path.segments target.toList ++ names)
        | some _ => follow t create links (dir ++ [name]) names
    | some _ => .error .notDirectory
    | none => .error .notFound
termination_by names => (links, names.length)

/-- Follows a path that the system takes: one that is not empty, holds no zero byte and is not too
long. -/
def followPath (t : FileTree) (create : Bool) (path : String) : Except PathError NodePath :=
  if path.toList.any fun c => c.toNat == 0 then .error .zeroByte
  else if path.isEmpty then .error .notFound
  else if pathLimit < path.utf8ByteSize then .error .nameTooLong
  else t.follow create linkLimit (origin t.current path) (Path.segments path.toList)

/-- The place that a path names, with all links followed. -/
def resolve (t : FileTree) (path : String) : Except PathError NodePath :=
  t.followPath false path

/-- The place where a path may be written, with all links followed. -/
def locate (t : FileTree) (path : String) : Except PathError NodePath :=
  match t.followPath true path with
  | .error e => .error e
  | .ok spot => if t.isDirectoryAt spot then .error .isDirectory else .ok spot

/-- The node that a path names. -/
def lookup (t : FileTree) (path : String) : Option Node :=
  match t.resolve path with
  | .ok spot => t.node? spot
  | .error _ => none

/-- Whether a path names anything. -/
def contains (t : FileTree) (path : String) : Bool :=
  (t.lookup path).isSome

/-- Whether a path names a directory. -/
def isDirectory (t : FileTree) (path : String) : Bool :=
  t.lookup path == some .directory

/-- The file that a path names. -/
def lookupFile (t : FileTree) (path : String) : Option File :=
  match t.lookup path with
  | some (.file id) => t.file? id
  | _ => none

/-- The text under which a path is stored: the normal form of the place that it names, or of the
path itself when it names nothing. -/
def canon (t : FileTree) (path : String) : String :=
  match t.resolve path with
  | .ok spot => Path.normalize (textOf spot)
  | .error _ => Path.normalize path

/-- Whether two paths name the same place; paths that name nothing are compared as paths. -/
def sameNode (t : FileTree) (same : String → String → Bool) (a b : String) : Bool :=
  match t.resolve a, t.resolve b with
  | .ok a, .ok b => a == b
  | _, _ => same a b

/-- The names of the entries of a directory, in order. -/
def entries (t : FileTree) (dir : NodePath) : List Path.Name :=
  ((t.nodes.filter fun n => n.1.length == dir.length + 1 && dir.isPrefixOf n.1).filterMap
    fun n => n.1.getLast?).mergeSort fun a b => (compare a b).isLE

end FileTree

end CrossIndex
