/-
What a path text means: a walk over a stack of directory names. A name enters the directory, `..`
leaves it (and stays at the root there), `.` and empty names stay.
-/
import CrossIndex.Path.Normal

namespace CrossIndex.Path

/-- One step of a walk; the stack holds the innermost directory first. -/
def step (stack : List Name) (name : Name) : List Name :=
  if name = [] ∨ name = here then stack
  else if name = up then stack.tail
  else name :: stack

/-- The directory stack that a path leads to from a base: an absolute path starts at the root. -/
def walk (base : List Name) (path : String) : List Name :=
  let cs := slashed path.toList
  (segments cs).foldl step (if isAbsolute cs then [] else base)

end CrossIndex.Path
