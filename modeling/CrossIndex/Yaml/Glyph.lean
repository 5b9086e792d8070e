/-
The characters of a YAML document and where each of them stands. A line break of one or of two
characters is one glyph; the breaks of old (carriage return, line feed, both, or next line) are all
read as a line feed, the line and paragraph separators as themselves.
-/
namespace CrossIndex.Yaml

/-- A character of a document: how many characters precede it, its line and its column. -/
structure Glyph where
  char : Char
  index : Nat
  line : Nat
  column : Nat
  deriving DecidableEq, Repr, Inhabited

/-- The mark that may stand at the start of a line to tell the byte order. -/
def byteOrderMark : Char := '\ufeff'

/-- Whether a document may hold a character at all. -/
def isAllowed (c : Char) : Bool :=
  c == '\t' || c == '\n' || c == '\r' || (0x20 ≤ c.toNat && c.toNat ≤ 0x7E) || c.toNat == 0x85 ||
    (0xA0 ≤ c.toNat && c.toNat ≤ 0xFFFD) || 0x10000 ≤ c.toNat

/-- Whether a character of a glyph ends a line. -/
def isBreak (c : Char) : Bool :=
  c == '\n' || c == '\u2028' || c == '\u2029'

/-- Whether a character is a blank within a line. -/
def isBlank (c : Char) : Bool :=
  c == ' ' || c == '\t'

/-- The glyphs of a text that starts at a position. -/
def glyphsFrom (index line column : Nat) : List Char → List Glyph
  | [] => []
  | '\r' :: '\n' :: cs => ⟨'\n', index, line, column⟩ :: glyphsFrom (index + 2) (line + 1) 0 cs
  | c :: cs =>
    if c = '\r' ∨ c.toNat = 0x85 then
      ⟨'\n', index, line, column⟩ :: glyphsFrom (index + 1) (line + 1) 0 cs
    else if isBreak c then ⟨c, index, line, column⟩ :: glyphsFrom (index + 1) (line + 1) 0 cs
    else ⟨c, index, line, column⟩ :: glyphsFrom (index + 1) line (column + 1) cs

/-- The glyphs of a document, all of whose characters have to be allowed. -/
def glyphs? (s : String) : Option (List Glyph) :=
  if s.toList.all isAllowed then some (glyphsFrom 0 0 0 s.toList) else none

/-- Whether the next glyph ends a word: a blank, a line break, or none at all. -/
def atGap : List Glyph → Bool
  | [] => true
  | g :: _ => isBlank g.char || isBreak g.char

/-- Whether the line is at its end. -/
def atLineEnd : List Glyph → Bool
  | [] => true
  | g :: _ => isBreak g.char

/-- Whether three equal characters and a gap at the start of a line mark the bounds of a document.
-/
def isMarker (c : Char) : List Glyph → Bool
  | x :: y :: z :: rest =>
    x.column == 0 && x.char == c && y.char == c && z.char == c && atGap rest
  | _ => false

/-- Whether a document starts or ends here. -/
def isBound (gs : List Glyph) : Bool :=
  isMarker '-' gs || isMarker '.' gs

/-- What follows the blanks that come next. -/
def skipBlanks (gs : List Glyph) : List Glyph :=
  gs.dropWhile fun g => isBlank g.char

/-- What follows the rest of a line on which nothing but blanks and a comment may stand. -/
def skipLine? (gs : List Glyph) : Option (List Glyph) :=
  let gs := skipBlanks gs
  let gs := match gs with
    | [] => []
    | g :: _ => if g.char == '#' then gs.dropWhile fun g => !isBreak g.char else gs
  if atLineEnd gs then some (gs.drop 1) else none

/-- The characters of glyphs. -/
def chars (gs : List Glyph) : List Char :=
  gs.map (·.char)

end CrossIndex.Yaml
