/-
Cursors over lists of answers: forward only, with the current element fetched ahead. The two ways to
move, `advance` and `next`, can be mixed; `toList` is what a cursor still holds.
-/
namespace CrossIndex

/-- A cursor over answers. -/
structure Cursor (α : Type) where
  current : Option α
  rest : List α
  deriving Repr

namespace Cursor

variable {α : Type}

/-- The cursor at the start of a list. -/
def ofList (as : List α) : Cursor α :=
  ⟨as.head?, as.tail⟩

/-- Whether there is a current element. -/
def hasElement (c : Cursor α) : Bool :=
  c.current.isSome

/-- The current element. -/
def element (c : Cursor α) : Option α :=
  c.current

/-- Moves on by one element. -/
def advance (c : Cursor α) : Cursor α :=
  ⟨c.rest.head?, c.rest.tail⟩

/-- Takes the current element, which leaves none there, and moves on. -/
def next (c : Cursor α) : Option α × Cursor α :=
  (c.current, advance { c with current := none })

/-- How many elements there still are, the current one included. -/
def remaining (c : Cursor α) : Nat :=
  (if c.current.isSome then 1 else 0) + c.rest.length

/-- The elements that there still are. -/
def toList (c : Cursor α) : List α :=
  c.current.toList ++ c.rest

/-- What is taken is not looked at when a cursor moves on. -/
@[simp] theorem next_eq (c : Cursor α) : c.next = (c.current, c.advance) :=
  rfl

@[simp] theorem toList_ofList (as : List α) : (ofList as).toList = as := by
  cases as <;> simp [ofList, toList]

@[simp] theorem toList_advance (c : Cursor α) : c.advance.toList = c.rest := by
  cases h : c.rest <;> simp [advance, toList, h]

@[simp] theorem remaining_eq_length (c : Cursor α) : c.remaining = c.toList.length := by
  cases h : c.current with
  | none => simp [remaining, toList, h]
  | some a =>
    simp [remaining, toList, h]
    omega

end Cursor

end CrossIndex
