/-
Paths compared by components. Repeated slashes, a trailing slash and a `.` that is not at the start
do not count; the root comes before a leading `.`, that before `..`, and that before names, which
are compared by their characters. Two spellings with the same components are the same path here,
although their texts differ.
-/
import CrossIndex.Path.Normal

namespace CrossIndex.Path

/-- One component of a path. -/
inductive Component where
  | root
  | current
  | parent
  | name (text : Name)
  deriving DecidableEq, Repr

namespace Component

/-- The place of a component's class in the order. -/
def rank : Component → Nat
  | .root => 0
  | .current => 1
  | .parent => 2
  | .name _ => 3

/-- The characters of a name; the other components have none. -/
def text : Component → Name
  | .name n => n
  | _ => []

instance : Ord Component where
  compare := compareLex (compareOn rank) (compareOn text)

/-- The component that a written name stands for, if it stands for any. -/
def ofName? (n : Name) : Option Component :=
  if n = [] ∨ n = here then none
  else if n = up then some .parent
  else some (.name n)

end Component

/-- The component that the start of a path contributes: the root, or a leading `.`. -/
def start (cs : List Char) : List Component :=
  if isAbsolute cs then [.root]
  else if (segments cs).head? = some here then [.current]
  else []

/-- The components of a path. -/
def components (path : String) : List Component :=
  let cs := path.toList
  start cs ++ (segments cs).filterMap Component.ofName?

/-- The order of paths by components. -/
def order (a b : String) : Ordering :=
  compare (components a) (components b)

/-- Whether two texts spell the same path. -/
def same (a b : String) : Bool :=
  components a == components b

end CrossIndex.Path
