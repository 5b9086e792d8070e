/-
Transitive closures of one-step questions. From a seed, entities are expanded one after the other,
each at most once; what an expansion answers is emitted element by element, each once, and the
entity an element points at becomes due for expansion. When the answers of one expansion are used
up, the due entity with the smallest id is expanded. Neighbours along overriding and renaming become
due together with an entity when the flags ask for it. An expansion that fails is reported and
answers nothing.

A `Walker` names the ids that may be reached; expansions stop after that many, which is never too
early as long as what the question reaches lies among them.
-/
import CrossIndex.Failure
import CrossIndex.Query.Entity

namespace CrossIndex

/-- Elements of a closure are ordered and point at an entity. -/
class ClosureElement (α : Type) extends Ord α where
  target : α → Entity

instance : ClosureElement Entity where
  target := id

instance : ClosureElement Reference where
  target := Reference.entity

instance : ClosureElement Parameter where
  target := Parameter.entity

/-- Which neighbours become due together with an expanded entity. -/
structure ClosureFlags where
  /-- The operations that override it. -/
  fromOverriding : Bool := false
  /-- The operation that it overrides. -/
  fromOverridden : Bool := false
  /-- The entity that it renames. -/
  fromRenames : Bool := false
  deriving DecidableEq, Repr, Inhabited

/-- All neighbours. -/
def ClosureFlags.all : ClosureFlags := ⟨true, true, true⟩

/-- The neighbours of an entity that the flags ask for. -/
def Store.neighbours (s : Store) (flags : ClosureFlags) (id : Int) : List Entity :=
  (if flags.fromOverriding then s.overriddenBy id else []) ++
    (if flags.fromOverridden then [s.overrides id] else []) ++
    (if flags.fromRenames then [s.renamingOf id] else [])

/-- A one-step question with all that its closure needs. -/
structure Walker (α : Type) where
  /-- The ids that may be reached. -/
  ids : List Int
  /-- The question. -/
  answer : Int → Except Failure (List α)
  /-- The neighbours that become due together with an entity. -/
  around : Int → List Entity

/-- A closure in progress. -/
structure Closure (α : Type) where
  /-- What the last expansion answered and has not been looked at. -/
  direct : List α
  /-- The expanded entities. -/
  visited : List Int
  /-- The entities that are due. -/
  due : List Int
  /-- The emitted elements, the latest first. -/
  emitted : List α
  /-- The element that is fetched ahead. -/
  current : Option α
  /-- The failures reported so far. -/
  reports : List String

namespace Closure

variable {α : Type} [ClosureElement α]

/-- The closure before its first step. -/
def initial (seed : Entity) : Closure α :=
  ⟨[], [], if seed.isNone then [] else [seed.id], [], none, []⟩

/-- Makes an entity due unless it is expanded already. -/
def schedule (c : Closure α) (e : Entity) : Closure α :=
  if e.isNone || c.visited.contains e.id then c
  else { c with due := IdSet.insert e.id c.due }

/-- The report of a failed expansion. -/
def failureReport (id : Int) (f : Failure) : String :=
  "closure: expanding entity " ++ Text.decimal id ++ ": " ++ f.display

/-- Expands an entity. -/
def expand (w : Walker α) (c : Closure α) (id : Int) : Closure α :=
  let c := { c with visited := IdSet.insert id c.visited }
  let c := (w.around id).foldl schedule c
  match w.answer id with
  | .ok direct => { c with direct := direct }
  | .error f => { c with direct := [], reports := c.reports ++ [failureReport id f] }

/-- Whether an element has been emitted. -/
def isEmitted (c : Closure α) (a : α) : Bool :=
  c.emitted.any fun b => compare a b == .eq

/-- Emits an element, with what follows it in its expansion. -/
def emit (c : Closure α) (a : α) (rest : List α) : Closure α :=
  let c := c.schedule (ClosureElement.target a)
  { c with direct := rest, emitted := a :: c.emitted, current := some a }

/-- Moves to the next element that has not been emitted, with at most `fuel` expansions. -/
def settle (w : Walker α) : Nat → Closure α → Closure α
  | fuel, c =>
    match c.direct.dropWhile c.isEmitted, fuel, c.due with
    | a :: rest, _, _ => c.emit a rest
    | [], fuel + 1, id :: due => settle w fuel (expand w { c with direct := [], due := due } id)
    | [], _, _ => { c with direct := [], current := none }

/-- How many expansions a step may take. -/
def fuel (w : Walker α) : Nat :=
  w.ids.length

/-- The closure at its first element. -/
def start (w : Walker α) (seed : Entity) : Closure α :=
  settle w (fuel w) (initial seed)

/-- Whether there is a current element. -/
def hasElement (c : Closure α) : Bool :=
  c.current.isSome

/-- The current element. -/
def element (c : Closure α) : Option α :=
  c.current

/-- Moves on by one element; at the end nothing changes. -/
def advance (w : Walker α) (c : Closure α) : Closure α :=
  if c.current.isSome then settle w (fuel w) c else c

/-- Takes the current element, which leaves none there, and moves on; at the end nothing changes. -/
def next (w : Walker α) (c : Closure α) : Option α × Closure α :=
  match c.current with
  | some a => (some a, settle w (fuel w) { c with current := none })
  | none => (none, c)

/-- Takes at most a number of elements. -/
def collect (w : Walker α) : Nat → Closure α → List α × Closure α
  | 0, c => ([], c)
  | n + 1, c =>
    match c.next w with
    | (none, c) => ([], c)
    | (some a, c) =>
      let (more, c) := collect w n c
      (a :: more, c)

/-- How many elements there are at most: the lengths of all answers. -/
def capacity (w : Walker α) : Nat :=
  (w.ids.map fun id => match w.answer id with
    | .ok direct => direct.length
    | .error _ => 0).foldr (· + ·) 0

/-- Takes all elements that there still are. -/
def collectAll (w : Walker α) (c : Closure α) : List α × Closure α :=
  collect w (capacity w + 1) c

end Closure

/-- The walker of a question over the entities of a store. -/
def Store.walker (s : Store) (seed : Entity) (flags : ClosureFlags)
    (answer : Int → Except Failure (List α)) : Walker α where
  ids := IdSet.ofList (seed.id :: s.entities.map EntityRow.id)
  answer := answer
  around := s.neighbours flags

end CrossIndex
