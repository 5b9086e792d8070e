/-
Addresses of stores. An address is the path of a file, or a text that starts with `file:` and gives
a path with percent signs for octets, and options after a question mark; two special addresses and
some options ask for a store in memory.
-/
import CrossIndex.Text.Hex

namespace CrossIndex

/-- Where a store is to be found. -/
inductive Address where
  /-- In memory, for one connection alone. -/
  | alone
  /-- In memory, for all connections that give the name. -/
  | shared (name : String)
  /-- In a file, which may or may not be created and written. -/
  | file (path : String) (mayCreate mayWrite : Bool)
  deriving DecidableEq, Repr, Inhabited

namespace Address

/-- The octets of an ASCII text. -/
def octets (s : String) : List UInt8 :=
  s.toUTF8.toList

/-- The text of octets. Octets that are no UTF-8 stand for the characters with their numbers. -/
def textOf (bs : List UInt8) : String :=
  match String.fromUTF8? (ByteArray.mk bs.toArray) with
  | some s => s
  | none => String.ofList (bs.map fun b => Char.ofNat b.toNat)

/-- The value of an octet as a hexadecimal digit. -/
def digit? (b : UInt8) : Option Nat :=
  Text.hexValue? (Char.ofNat b.toNat)

/-- Octets with escapes resolved. An escape of the zero octet ends them. -/
def unescaped : List UInt8 → List UInt8
  | [] => []
  | [a] => [a]
  | [a, b] => [a, b]
  | c :: a :: b :: rest =>
    if c = 0x25 then
      match digit? a, digit? b with
      | some x, some y =>
        if x * 16 + y = 0 then [] else UInt8.ofNat (x * 16 + y) :: unescaped rest
      | _, _ => c :: unescaped (a :: b :: rest)
    else c :: unescaped (a :: b :: rest)

/-- The two sides of the first octet of a kind, if there is one. -/
def cut (mark : UInt8) (bs : List UInt8) : List UInt8 × List UInt8 :=
  (bs.takeWhile (· != mark), (bs.dropWhile (· != mark)).drop 1)

/-- The options of an address, with names that are not empty. -/
def options (query : List UInt8) : List (String × String) :=
  ((query.splitBy fun _ b => b != 0x26).map fun part =>
      let (name, value) := cut 0x3D (if part.head? == some 0x26 then part.drop 1 else part)
      (textOf (unescaped name), textOf (unescaped value))).filter fun option => !option.1.isEmpty

/-- What options ask for. -/
structure Request where
  /-- Whether the store is to be in memory. -/
  memory : Bool := false
  /-- How much is allowed: to read, to write, to write and create; 0 for a store in memory. -/
  level : Nat := 6
  isShared : Bool := false
  /-- The way to reach files. -/
  layer : String := "unix"
  deriving DecidableEq, Repr, Inhabited

/-- Takes one more option into account. An access that goes beyond the one allowed before is
refused, and so is one that is not known. -/
def Request.add? (r : Request) (option : String × String) : Option Request :=
  if option.1 = "vfs" then some { r with layer := option.2 }
  else if option.1 = "cache" then
    if option.2 = "shared" then some { r with isShared := true }
    else if option.2 = "private" then some { r with isShared := false }
    else none
  else if option.1 = "mode" then
    let allow (level : Nat) : Option Request :=
      if r.memory || level ≤ r.level then some { r with memory := false, level } else none
    if option.2 = "ro" then allow 1
    else if option.2 = "rw" then allow 2
    else if option.2 = "rwc" then allow 6
    else if option.2 = "memory" then some { r with memory := true, level := 0 }
    else none
  else some r

/-- Whether the value of an option is on: a word for it, or digits of a number other than zero. -/
def isOn (value : String) : Bool :=
  let cs := value.toList.map Char.toLower
  ["on", "yes", "true"].contains (String.ofList cs) || (cs.takeWhile Char.isDigit).any (· != '0')

/-- The ways to reach files that are known. -/
def layers : List String :=
  ["unix", "unix-none", "unix-dotfile", "unix-excl", "memdb"]

/-- The path of an address without its host, which is none or the local one. -/
def withoutHost? (bs : List UInt8) : Option (List UInt8) :=
  match bs with
  | 0x2F :: 0x2F :: rest =>
    let host := textOf (rest.takeWhile (· != 0x2F))
    if host = "" ∨ host = "localhost" then some (rest.dropWhile (· != 0x2F)) else none
  | bs => some bs

/-- Reads what follows `file:`. -/
def ofParts? (bs : List UInt8) : Option Address := do
  let bs ← withoutHost? bs
  let (path, query) := cut 0x3F (cut 0x23 bs).1
  let path := textOf (unescaped path)
  let options := options query
  let request ← options.foldlM Request.add? {}
  if !layers.contains request.layer then none
  else if path.isEmpty then some .alone
  else if request.layer = "memdb" then
    some (if path.toList.head? == some '/' && 1 < path.length then .shared ("memdb:" ++ path)
      else .alone)
  else if request.memory || path = ":memory:" then
    some (if request.isShared then .shared path else .alone)
  else
    let fixed := isOn ((options.lookup "immutable").getD "")
    some (.file path (request.level == 6) (2 ≤ request.level && !fixed))

/-- Reads an address. -/
def ofText? (s : String) : Option Address :=
  if s.toList.any fun c => c.toNat == 0 then none
  else if "file:".isPrefixOf s then ofParts? ((octets s).drop 5)
  else if s.isEmpty ∨ s = ":memory:" then some .alone
  else some (.file s true true)

end Address

end CrossIndex
