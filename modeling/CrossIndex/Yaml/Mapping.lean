/-
Documents that are one mapping from scalars to scalars. Such a document is a block mapping or a flow
mapping, or it is empty; aliases in it stand for scalars with anchors.
-/
import CrossIndex.Yaml.Lexer

namespace CrossIndex.Yaml

/-- A scalar with its style and the full name of its tag. -/
structure Scalar where
  style : Style
  tag : Option String
  text : String
  deriving DecidableEq, Repr, Inhabited

/-- A key or a value: a scalar, which an anchor may name, or an alias. -/
inductive Node where
  | scalar (anchor : Option String) (scalar : Scalar)
  | alias (name : String)
  deriving DecidableEq, Repr, Inhabited

/-- The handles of tags and what they stand for. -/
abbrev Handles := List (String × String)

/-- The handles that need no directive. -/
def Handles.standard : Handles :=
  [("!", "!"), ("!!", "tag:yaml.org,2002:")]

/-- The full name of a tag. -/
def Handles.name? (hs : Handles) (t : Tag) : Option String :=
  if t.handle.isEmpty then some t.suffix else (hs.lookup t.handle).map (· ++ t.suffix)

/-- A scalar with a tag; a lone exclamation mark is none. -/
def Handles.scalar? (hs : Handles) (t : Option Tag) (style : Style) (text : String) :
    Option Scalar :=
  match t with
  | none => some ⟨style, none, text⟩
  | some t => (hs.name? t).map fun name => ⟨style, if name = "!" then none else some name, text⟩

/-- A part of a document: a token of its structure, or a node. -/
inductive Part where
  | mark (token : Token)
  | node (node : Node)
  deriving DecidableEq, Repr, Inhabited

/-- The parts of a document. A scalar and the properties before it make up a node. -/
def parts? (hs : Handles) : List Token → Option (List Part)
  | [] => some []
  | .alias name :: rest => do return .node (.alias name) :: (← parts? hs rest)
  | .scalar style text :: rest => do
    return .node (.scalar none (← hs.scalar? none style text)) :: (← parts? hs rest)
  | .tag t :: .scalar style text :: rest => do
    return .node (.scalar none (← hs.scalar? (some t) style text)) :: (← parts? hs rest)
  | .anchor a :: .scalar style text :: rest => do
    return .node (.scalar (some a) (← hs.scalar? none style text)) :: (← parts? hs rest)
  | .tag t :: .anchor a :: .scalar style text :: rest => do
    return .node (.scalar (some a) (← hs.scalar? (some t) style text)) :: (← parts? hs rest)
  | .anchor a :: .tag t :: .scalar style text :: rest => do
    return .node (.scalar (some a) (← hs.scalar? (some t) style text)) :: (← parts? hs rest)
  | .tag t :: rest => do
    let _ ← hs.name? t
    return .mark (.tag t) :: (← parts? hs rest)
  | t :: rest => do return .mark t :: (← parts? hs rest)

/-- The entries of a block mapping, and what follows it. -/
def blockEntries? : List Part → Option (List (Node × Node) × List Part)
  | .mark .blockEnd :: rest => some ([], rest)
  | .mark .key :: .node k :: .mark .value :: .node v :: rest =>
    (blockEntries? rest).map fun (entries, rest) => ((k, v) :: entries, rest)
  | _ => none

/-- The entries of a flow mapping, and what follows it. A comma may follow the last entry. -/
def flowEntries? : List Part → Option (List (Node × Node) × List Part)
  | .mark .flowEnd :: rest => some ([], rest)
  | .mark .key :: .node k :: .mark .value :: .node v :: .mark .flowEnd :: rest =>
    some ([(k, v)], rest)
  | .mark .key :: .node k :: .mark .value :: .node v :: .mark .comma :: rest =>
    (flowEntries? rest).map fun (entries, rest) => ((k, v) :: entries, rest)
  | _ => none

/-- A mapping: the anchor that names it, and its entries. -/
structure Mapping where
  anchor : Option String := none
  entries : List (Node × Node) := []
  deriving DecidableEq, Repr, Inhabited

/-- The anchor of a document's node, and whether it has any property. -/
def rootProperties : List Part → Option String × Bool × List Part
  | .mark (.anchor a) :: .mark (.tag _) :: rest => (some a, true, rest)
  | .mark (.tag _) :: .mark (.anchor a) :: rest => (some a, true, rest)
  | .mark (.anchor a) :: rest => (some a, true, rest)
  | .mark (.tag _) :: rest => (none, true, rest)
  | rest => (none, false, rest)

/-- The mapping that a document consists of, and what follows it. Properties alone stand for an
empty one. -/
def root? (parts : List Part) : Option (Mapping × List Part) :=
  match rootProperties parts with
  | (anchor, _, .mark .blockStart :: rest) =>
    (blockEntries? rest).map fun (entries, rest) => (⟨anchor, entries⟩, rest)
  | (anchor, _, .mark .flowStart :: rest) =>
    (flowEntries? rest).map fun (entries, rest) => (⟨anchor, entries⟩, rest)
  | (anchor, true, rest) => some (⟨anchor, []⟩, rest)
  | (_, false, _) => none

/-- Whether a token is a directive. -/
def Token.isDirective : Token → Bool
  | .version _ _ => true
  | .handle _ _ => true
  | _ => false

/-- The handles that directives set. There is one version at most, of which 1.1 and 1.2 are known,
and a handle is set once. -/
def handles? : List Token → Option Handles
  | [] => some []
  | .version major minor :: rest => do
    let known := major == 1 && (minor == 1 || minor == 2)
    let again := rest.any fun t => t matches .version _ _
    if known && !again then handles? rest else none
  | .handle name start :: rest => do
    let more ← handles? rest
    if (more.lookup name).isSome then none else return (name, start) :: more
  | _ => none

/-- Whether only marks of a document's end are left. -/
def isOver (parts : List Part) : Bool :=
  parts.all fun p => p == .mark .documentEnd

/-- The mapping of tokens without directives that make up a document to the end. -/
def content? (hs : Handles) (tokens : List Token) : Option Mapping := do
  let (mapping, rest) ← root? (← parts? hs tokens)
  if isOver rest then some mapping else none

/-- The mapping of the one document that tokens make up. Without an opening mark, a document that is
empty has no closing one either. -/
def mapping? (tokens : List Token) : Option Mapping := do
  let directives := tokens.takeWhile Token.isDirective
  let hs := (← handles? directives) ++ Handles.standard
  match tokens.drop directives.length with
  | .documentStart :: rest =>
    if rest.all (· == .documentEnd) then some {} else content? hs rest
  | rest =>
    if !directives.isEmpty then none
    else if rest.isEmpty then some {}
    else content? hs rest

/-- The anchors of a document. Each name has a number, which is how many names were there when the
anchor was set. -/
structure Anchors where
  numbers : List (String × Nat) := []
  targets : List (Nat × Option Scalar) := []
  deriving DecidableEq, Repr, Inhabited

/-- Sets an anchor, for a scalar or for something else. -/
def Anchors.set (a : Anchors) (name : Option String) (target : Option Scalar) : Anchors :=
  match name with
  | none => a
  | some name =>
    let number := a.numbers.length
    let others := a.numbers.filter fun n => n.1 != name
    { numbers := (name, number) :: others, targets := (number, target) :: a.targets }

/-- A scalar, or the number of one. -/
inductive Target where
  | here (scalar : Scalar)
  | at (number : Nat)
  deriving DecidableEq, Repr, Inhabited

/-- Numbers the aliases among nodes; the anchor of each has to be set before it. -/
def numbered? (a : Anchors) : List Node → Option (List Target × Anchors)
  | [] => some ([], a)
  | .scalar name s :: rest => do
    let (targets, a) ← numbered? (a.set name (some s)) rest
    return (.here s :: targets, a)
  | .alias name :: rest => do
    let number ← a.numbers.lookup name
    let (targets, a) ← numbered? a rest
    return (.at number :: targets, a)

/-- The scalar that a target is: the one whose anchor had the number last. -/
def Anchors.scalar? (a : Anchors) : Target → Option Scalar
  | .here s => some s
  | .at number => (a.targets.lookup number).join

/-- Scalars two by two. -/
def pairs : List Scalar → List (Scalar × Scalar)
  | k :: v :: rest => (k, v) :: pairs rest
  | _ => []

/-- The entries of a mapping with all aliases resolved. -/
def Mapping.scalars? (m : Mapping) : Option (List (Scalar × Scalar)) := do
  let nodes := m.entries.flatMap fun entry => [entry.1, entry.2]
  let (targets, anchors) ← numbered? (Anchors.set {} m.anchor none) nodes
  return pairs (← targets.mapM anchors.scalar?)

/-- The entries of a document that is a mapping from scalars to scalars. -/
def entries? (s : String) : Option (List (Scalar × Scalar)) := do
  (← mapping? (← tokens? s)).scalars?

end CrossIndex.Yaml
