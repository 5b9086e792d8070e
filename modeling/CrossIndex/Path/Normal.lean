/-
Lexical normal forms of path texts. Backslashes separate names like slashes; empty names and `.` are
dropped; `..` removes the name before it where there is one to remove. The normal form of a path is
the text under which a file is stored.
-/
namespace CrossIndex.Path

/-- A name of a path: what stands between two separators. -/
abbrev Name := List Char

/-- The name of the directory itself. -/
def here : Name := ['.']

/-- The name of the directory above. -/
def up : Name := ['.', '.']

/-- The names of a path text, cut at every slash. -/
def segments : List Char → List Name
  | [] => [[]]
  | c :: cs =>
    if c = '/' then [] :: segments cs
    else match segments cs with
      | [] => [[c]]
      | name :: names => (c :: name) :: names

/-- Names put together with a slash between each two. -/
def joined : List Name → List Char
  | [] => []
  | [name] => name
  | name :: next :: names => name ++ '/' :: joined (next :: names)

/-- A path text with slashes in place of backslashes. -/
def slashed (cs : List Char) : List Char :=
  cs.map fun c => if c = '\\' then '/' else c

/-- Whether a path text starts at the root. -/
def isAbsolute (cs : List Char) : Bool :=
  cs.head? == some '/'

/-- Takes one more name into a normal form, which is held innermost name first. A `..` that has
nothing to remove stays in a relative path and vanishes in an absolute one. -/
def push (absolute : Bool) (stack : List Name) (name : Name) : List Name :=
  if name = [] ∨ name = here then stack
  else if name = up then
    match stack with
    | [] => if absolute then [] else [up]
    | top :: rest =>
      if top = up then (if absolute then top :: rest else up :: top :: rest) else rest
  else name :: stack

/-- The names of the normal form, outermost first. -/
def normalNames (cs : List Char) : List Name :=
  ((segments cs).foldl (push (isAbsolute cs)) []).reverse

/-- The normal form of a path given by its characters. -/
def normalChars (cs : List Char) : List Char :=
  let path := slashed cs
  if isAbsolute path then '/' :: joined (normalNames path) else joined (normalNames path)

/-- The normal form of a path. -/
def normalize (path : String) : String :=
  String.ofList (normalChars path.toList)

end CrossIndex.Path
