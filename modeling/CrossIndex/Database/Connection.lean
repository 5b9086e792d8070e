/-
Connections to stores. A connection holds the file of a store, and, unless the store is in memory,
the place where it was found; the store can be written only while the file is still there. A write
is prepared in a journal beside the file.
-/
import CrossIndex.Database.Address
import CrossIndex.Failure
import CrossIndex.FileTree.Change

namespace CrossIndex

/-- A connection to a store. -/
structure Connection where
  file : FileId
  /-- Where the file was found; a store in memory has no place. -/
  place : Option NodePath := none
  /-- The name under which a store in memory is shared. -/
  name : Option String := none
  mayWrite : Bool := true
  deriving DecidableEq, Repr, Inhabited

namespace Connection

/-- How many links lead to the file of a store at most. -/
def linkLimit : Nat := 201

/-- How many bytes the path of a directory on the way to a store may take. -/
def stepLimit : Nat := 511

/-- How many bytes the path of a store may take. -/
def placeLimit : Nat := 504

/-- Follows names to the place of a store, links included. A name that is missing is passed over
like any other, so that `..` takes it away again; nothing lies below a file. -/
def follow (t : FileTree) (links : Nat) (dir : NodePath) : List Path.Name → Option NodePath
  | [] => some dir
  | name :: names =>
    if name = [] ∨ name = Path.here then follow t links dir names
    else if name = Path.up then follow t links dir.dropLast names
    else
      let spot := dir ++ [name]
      if stepLimit < (FileTree.textOf spot).utf8ByteSize then none
      else
        match t.node? dir with
        | some .directory =>
          if FileTree.nameLimit < FileTree.nameSize name then none
          else
            match t.node? spot with
            | some (.link target) =>
              match links with
              | 0 => none
              | links + 1 =>
                follow t links (FileTree.origin dir target) (Path.segments target.toList ++ names)
            | _ => follow t links spot names
        | some _ => none
        | none => follow t links spot names
termination_by names => (links, names.length)

/-- The place of the store with a path. -/
def place? (t : FileTree) (path : String) : Option NodePath := do
  let spot ← follow t linkLimit (FileTree.origin t.current path) (Path.segments path.toList)
  if spot.isEmpty || placeLimit < (FileTree.textOf spot).utf8ByteSize then none else some spot

/-- Connects to the file at a place, which is made if that is allowed. -/
def atPlace (t : FileTree) (spot : NodePath) (mayCreate mayWrite : Bool) :
    Option Connection × FileTree :=
  match t.node? spot with
  | some (.file id) => (some { file := id, place := some spot, mayWrite }, t)
  | some _ => (none, t)
  | none =>
    if mayCreate && t.isDirectoryAt spot.dropLast then
      let (id, t) := t.createFile spot ⟨.bytes [], 0⟩
      (some { file := id, place := some spot, mayWrite }, t)
    else (none, t)

/-- Connects to a new store in memory. -/
def inMemory (t : FileTree) (name : Option String) : Connection × FileTree :=
  let (id, t) := t.addFile ⟨.bytes [], 0⟩
  ({ file := id, name }, t)

/-- Connects to the store with an address. A shared store in memory is there as long as one of the
`others` has it. -/
def toAddress (t : FileTree) (others : List Connection) (address : Address) :
    Option Connection × FileTree :=
  match address with
  | .alone => let (c, t) := inMemory t none; (some c, t)
  | .shared name =>
    match others.find? (·.name == some name) with
    | some c => (some c, t)
    | none => let (c, t) := inMemory t (some name); (some c, t)
  | .file path mayCreate mayWrite =>
    match place? t path with
    | none => (none, t)
    | some spot => atPlace t spot mayCreate mayWrite

/-- The journal of the store at a place: its name is that of the store with an ending. -/
def journalOf (spot : NodePath) : NodePath :=
  spot.dropLast ++ [(spot.getLast?.getD []) ++ "-journal".toList]

/-- Whether a journal can be written. -/
def canJournal (t : FileTree) (spot : NodePath) : Bool :=
  let journal := journalOf spot
  FileTree.nameSize (journal.getLast?.getD []) ≤ FileTree.nameLimit &&
    match t.node? journal with
    | none => true
    | some (.file _) => true
    | some _ => false

/-- Whether something that cannot be read stands where a journal is looked for. -/
def journalBlocks (t : FileTree) (spot : NodePath) : Bool :=
  match t.node? (journalOf spot) with
  | some .directory => true
  | some (.link _) => t.contains (FileTree.textOf (journalOf spot))
  | _ => false

/-- The tree without the journal of a write that was never finished, which starts with a byte other
than zero. -/
def withoutStaleJournal (t : FileTree) (spot : NodePath) : FileTree :=
  match t.node? (journalOf spot) with
  | some (.file id) =>
    match t.file? id with
    | some ⟨.bytes (b :: _), _⟩ => if b = 0 then t else t.erase (journalOf spot)
    | some ⟨.store _, _⟩ => t.erase (journalOf spot)
    | _ => t
  | _ => t

/-- Connects to the store with a written address, and clears away the journal of a write that was
never finished. -/
def toText (t : FileTree) (others : List Connection) (address : String) :
    Option Connection × FileTree :=
  match (Address.ofText? address).map (toAddress t others) with
  | some (some c, t) => (some c, c.place.elim t (withoutStaleJournal t))
  | some (none, t) => (none, t)
  | none => (none, t)

/-- The failure of a store that cannot be reached. -/
def unreachable : Failure :=
  Failure.ofStatement "unable to open database file"

/-- The failure of a file that holds something else. -/
def notAStore : Failure :=
  Failure.ofStatement "file is not a database"

/-- The failure of a store that cannot be written. -/
def notWritable : Failure :=
  Failure.ofStatement "attempt to write a readonly database"

/-- The failure of a copy of a store to itself. -/
def locked : Failure :=
  Failure.of .database "store copy failed: database locked"

/-- The store that a connection has. A file of one byte counts as empty; an empty one holds no store
yet. -/
def read (c : Connection) (t : FileTree) : Except Failure (Option Store) :=
  match t.file? c.file with
  | none => .error unreachable
  | some f =>
    match f.content with
    | .store s => if c.place.any (journalBlocks t) then .error unreachable else .ok (some s)
    | .bytes data => if data.length ≤ 1 then .ok none else .error notAStore

/-- Whether the store of a connection can be written: the file is still where it was found, and a
journal can be written. -/
def isWritable (c : Connection) (t : FileTree) : Bool :=
  c.mayWrite && c.place.all fun spot => t.node? spot == some (.file c.file) && canJournal t spot

/-- Puts a content into the file of a connection, after which there is no journal. -/
def set (c : Connection) (t : FileTree) (content : Content) : FileTree :=
  let t := t.setFile c.file ⟨content, 0⟩
  match c.place with
  | none => t
  | some spot => t.erase (journalOf spot)

/-- Writes a store. -/
def write (c : Connection) (t : FileTree) (s : Store) : Except Failure FileTree :=
  if c.isWritable t then .ok (c.set t (.store s)) else .error notWritable

/-- Makes a new store where there is none yet. What is there already has to be a store, and one that
may be written. -/
def establish (c : Connection) (t : FileTree) : Except Failure FileTree := do
  match ← c.read t with
  | none => c.write t Store.fresh
  | some _ => if c.mayWrite then return t else .error notWritable

/-- Replaces the store of a connection by that of another one. -/
def copyFrom (c : Connection) (t : FileTree) (source : Connection) : Except Failure FileTree :=
  if c.file = source.file then .error locked
  else do
    let _ ← c.read t
    if !c.isWritable t then .error notWritable
    else
      match ← source.read t with
      | some s => .ok (c.set t (.store s))
      | none => .ok (c.set t (.bytes []))

end Connection

end CrossIndex
