/-
Byte columns and visible columns of a line. A byte column counts the UTF-8 bytes before a character,
a visible column counts screen cells with tabs advancing to the next tab stop; both start at 1.
`visibleColumn` and `byteColumn` are two separate scans of the line, each the other's inverse on
columns that start a character or lie past the end of the line.
-/
namespace CrossIndex.Text

/-- A number reduced to the range of a signed 32-bit integer. -/
def wrap32 (n : Int) : Int :=
  n.bmod 4294967296

/-- The distance between tab stops: at least 1, read as a signed 32-bit integer. -/
def tabStop (tabWidth : Nat) : Int :=
  wrap32 (max tabWidth 1)

/-- The visible column after a character that stands at a visible column. -/
def advance (tab visible : Int) (c : Char) : Int :=
  if c = '\t' then ((visible - 1).tdiv tab + 1) * tab + 1 else visible + 1

/-- Scans for the byte offset `target`, with `offset` bytes and the cells up to `visible` behind.
Past the end of the line every byte counts one cell. -/
def visibleFrom (tab : Int) (target : Nat) : Nat → Int → List Char → Int
  | offset, visible, [] => visible + wrap32 ((target - offset : Nat) : Int)
  | offset, visible, c :: cs =>
    if target ≤ offset then visible
    else visibleFrom tab target (offset + c.utf8Size) (advance tab visible c) cs

/-- The visible column of the character at a byte column of the line. -/
def visibleColumn (line : String) (byteColumn tabWidth : Nat) : Int :=
  visibleFrom (tabStop tabWidth) (byteColumn - 1) 0 1 line.toList

/-- Scans for the character that covers the visible column `wanted`. -/
def byteFrom (tab wanted : Int) : Nat → Int → List Char → Nat
  | offset, visible, [] => offset + 1 + (wanted - visible).toNat
  | offset, visible, c :: cs =>
    let next := advance tab visible c
    if wanted < next then offset + 1 else byteFrom tab wanted (offset + c.utf8Size) next cs

/-- The byte column of the character that covers a visible column of the line. -/
def byteColumn (line : String) (visibleColumn : Int) (tabWidth : Nat) : Nat :=
  byteFrom (tabStop tabWidth) visibleColumn 0 1 line.toList

end CrossIndex.Text
