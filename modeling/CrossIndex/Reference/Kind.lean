/-
Kinds of references. A kind is a row with a one-character id, a display text and attributes that the
queries interpret; the standard kinds are always known, and front ends may register more.
-/
namespace CrossIndex

/-- The attributes of a reference kind; an unknown kind has none of them. -/
structure KindAttributes where
  /-- The name of the entity stands at the place of the reference. -/
  isReal : Bool := false
  isRead : Bool := false
  isWrite : Bool := false
  /-- The reference ends the scope of the entity. -/
  isEnd : Bool := false
  isImplicit : Bool := false
  isDispatching : Bool := false
  /-- The reference is an edge of the call graph. -/
  showInCallgraph : Bool := false
  deriving DecidableEq, Repr, Inhabited

/-- The names of the attributes, in the order of the fields, with their values. -/
def KindAttributes.named (a : KindAttributes) : List (String × Bool) :=
  [("is_real", a.isReal), ("is_read", a.isRead), ("is_write", a.isWrite), ("is_end", a.isEnd),
    ("is_implicit", a.isImplicit), ("is_dispatching", a.isDispatching),
    ("show_in_callgraph", a.showInCallgraph)]

/-- A reference kind. -/
structure ReferenceKind where
  id : Char
  display : String
  attributes : KindAttributes
  deriving DecidableEq, Repr, Inhabited

namespace ReferenceKind

/-- The id of the kind that declarations have. -/
def declarationId : Char := 'D'

/-- The display text of declarations when their kind is not known. -/
def declarationDisplay : String := "declaration"

/-- Whether a kind id marks a body or a completion. -/
def isBody (id : Char) : Bool :=
  id == 'b' || id == 'c'

/-- A kind whose references only place the name of the entity. -/
def plain (id : Char) (display : String) : ReferenceKind :=
  ⟨id, display, { isReal := true }⟩

/-- The standard kinds. -/
def standard : List ReferenceKind :=
  [plain 'D' "declaration",
    plain 'b' "body",
    plain 'c' "full declaration",
    ⟨'e', "end of spec", { isReal := true, isEnd := true }⟩,
    ⟨'t', "end of body", { isReal := true, isEnd := true }⟩,
    ⟨'l', "label on end line", { isReal := true, isEnd := true }⟩,
    ⟨'i', "implicit reference", { isRead := true, isImplicit := true }⟩,
    plain 'k' "parent unit",
    ⟨'m', "write reference", { isReal := true, isWrite := true }⟩,
    ⟨'r', "reference", { isReal := true, isRead := true }⟩,
    ⟨'s', "static call", { isReal := true, isRead := true, showInCallgraph := true }⟩,
    ⟨'R', "dispatching call",
      { isReal := true, isRead := true, isDispatching := true, showInCallgraph := true }⟩,
    plain 'w' "with line",
    plain 'x' "type extension",
    plain 'z' "generic formal parameter",
    plain 'p' "primitive operation",
    plain 'P' "overriding primitive operation",
    ⟨'o', "own variable reference", { isReal := true, isRead := true }⟩,
    plain '>' "in parameter",
    plain '<' "out parameter",
    plain '=' "in out parameter",
    plain '^' "access parameter"]

end ReferenceKind

end CrossIndex
