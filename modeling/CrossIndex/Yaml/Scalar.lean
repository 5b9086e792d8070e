/-
Scalars of a YAML document: plain words, quoted text, and blocks of lines. Blanks between words are
kept, and line breaks between words are folded.
-/
import CrossIndex.Text.Hex
import CrossIndex.Yaml.Glyph

namespace CrossIndex.Yaml

/-- The blanks and line breaks read since the last word. -/
structure Fold where
  /-- The blanks before the first break. -/
  blanks : List Char := []
  /-- Whether a line has ended, also by a break that is escaped. -/
  broken : Bool := false
  /-- The first break. -/
  first : List Char := []
  /-- The other breaks. -/
  more : List Char := []
  deriving DecidableEq, Repr, Inhabited

namespace Fold

/-- Whether nothing has been read since the last word. -/
def isEmpty (f : Fold) : Bool :=
  f.blanks.isEmpty && !f.broken

/-- One more blank; those that indent a line do not count. -/
def addBlank (f : Fold) (c : Char) : Fold :=
  if f.broken then f else { f with blanks := f.blanks ++ [c] }

/-- One more line break. -/
def addBreak (f : Fold) (c : Char) : Fold :=
  if f.broken then { f with more := f.more ++ [c] } else { broken := true, first := [c] }

/-- What a line break leaves that is escaped. -/
def escaped : Fold :=
  { broken := true }

/-- The text that stands for what has been read: a single line feed becomes a space, and the first
of several is dropped. -/
def text (f : Fold) : List Char :=
  if !f.broken then f.blanks
  else if f.first = ['\n'] then if f.more.isEmpty then [' '] else f.more
  else f.first ++ f.more

end Fold

/-- The character that an escape of one letter stands for. -/
def escape? (c : Char) : Option Char :=
  match c with
  | '0' => some '\x00'
  | 'a' => some '\x07'
  | 'b' => some '\x08'
  | 't' => some '\t'
  | '\t' => some '\t'
  | 'n' => some '\n'
  | 'v' => some '\x0b'
  | 'f' => some '\x0c'
  | 'r' => some '\r'
  | 'e' => some '\x1b'
  | ' ' => some ' '
  | '"' => some '"'
  | '/' => some '/'
  | '\\' => some '\\'
  | 'N' => some '\u0085'
  | '_' => some '\u00a0'
  | 'L' => some '\u2028'
  | 'P' => some '\u2029'
  | _ => none

/-- How many hexadecimal digits follow the letter of an escape. -/
def escapeWidth? (c : Char) : Option Nat :=
  match c with
  | 'x' => some 2
  | 'u' => some 4
  | 'U' => some 8
  | _ => none

/-- The value of hexadecimal digits. -/
def hexNumber? (cs : List Char) : Option Nat :=
  cs.foldlM (fun n c => (Text.hexValue? c).map fun d => n * 16 + d) 0

/-- The character whose code point some digits write. -/
def codePoint? (width : Nat) (gs : List Glyph) : Option Char := do
  let digits := chars (gs.take width)
  let n ← hexNumber? digits
  if digits.length = width ∧ n.isValidChar then some (Char.ofNat n) else none

/-- Reads text up to a double quote, after the opening one. -/
def doubleQuoted? (fold : Fold) (gs : List Glyph) : Option (List Char × List Glyph) :=
  match gs with
  | [] => none
  | g :: rest =>
    if isBreak g.char then doubleQuoted? (fold.addBreak g.char) rest
    else if isBlank g.char then doubleQuoted? (fold.addBlank g.char) rest
    else if isBound (g :: rest) then none
    else if g.char = '"' then some (fold.text, rest)
    else if g.char = '\\' then
      match rest with
      | [] => none
      | e :: rest =>
        if isBreak e.char then do
          let (text, rest) ← doubleQuoted? Fold.escaped rest
          return (fold.text ++ text, rest)
        else
          match escape? e.char with
          | some c => do
            let (text, rest) ← doubleQuoted? {} rest
            return (fold.text ++ c :: text, rest)
          | none => do
            let width ← escapeWidth? e.char
            let c ← codePoint? width rest
            let (text, rest) ← doubleQuoted? {} (rest.drop width)
            return (fold.text ++ c :: text, rest)
    else do
      let (text, rest) ← doubleQuoted? {} rest
      return (fold.text ++ g.char :: text, rest)
termination_by gs.length
decreasing_by
  all_goals simp only [List.length_drop, List.length_cons]
  all_goals omega

/-- Reads text up to a single quote, after the opening one; two quotes stand for one. -/
def singleQuoted? (fold : Fold) (gs : List Glyph) : Option (List Char × List Glyph) :=
  match gs with
  | [] => none
  | g :: rest =>
    if isBreak g.char then singleQuoted? (fold.addBreak g.char) rest
    else if isBlank g.char then singleQuoted? (fold.addBlank g.char) rest
    else if isBound (g :: rest) then none
    else if g.char = '\'' then
      match rest with
      | [] => some (fold.text, [])
      | q :: rest =>
        if q.char = '\'' then do
          let (text, rest) ← singleQuoted? {} rest
          return (fold.text ++ '\'' :: text, rest)
        else some (fold.text, q :: rest)
    else do
      let (text, rest) ← singleQuoted? {} rest
      return (fold.text ++ g.char :: text, rest)

/-- Whether a character separates the items of a flow mapping or encloses them. -/
def isFlowMark (c : Char) : Bool :=
  c == ',' || c == '[' || c == ']' || c == '\x7b' || c == '\x7d'

/-- A plain scalar, what follows the blanks after it, and whether a line has ended in these. -/
structure Plain where
  text : List Char
  rest : List Glyph
  broken : Bool

/-- Reads words. In a block, a line that is indented less than `indent` ends them; in a flow
mapping, its marks do. So do a comment, a colon before a gap, and the bounds of the document. -/
def plain? (inFlow : Bool) (indent : Nat) (fold : Fold) : List Glyph → Option Plain
  | [] => some ⟨[], [], fold.broken⟩
  | g :: rest =>
    if isBreak g.char then plain? inFlow indent (fold.addBreak g.char) rest
    else if isBlank g.char then
      if fold.broken && g.char == '\t' && g.column < indent then none
      else plain? inFlow indent (fold.addBlank g.char) rest
    else if !fold.isEmpty &&
        ((!inFlow && g.column < indent) || isBound (g :: rest) || g.char == '#') then
      some ⟨[], g :: rest, fold.broken⟩
    else if inFlow && g.char == ':' &&
        rest.head?.any (fun next => isFlowMark next.char || next.char == '?') then none
    else if (g.char == ':' && atGap rest) || (inFlow && isFlowMark g.char) then
      some ⟨[], g :: rest, fold.broken⟩
    else do
      let p ← plain? inFlow indent {} rest
      return { p with text := fold.text ++ g.char :: p.text }

/-- What becomes of the line breaks at the end of a block. -/
inductive Chomping where
  | strip
  | clip
  | keep
  deriving DecidableEq, Repr, Inhabited

/-- The header of a block: what becomes of its end, and how far it is said to be indented. -/
structure Header where
  chomping : Chomping := .clip
  increment : Option Nat := none
  deriving DecidableEq, Repr, Inhabited

/-- Reads what becomes of the end of a block. -/
def chomping? : List Glyph → Option (Chomping × List Glyph)
  | g :: rest =>
    if g.char = '+' then some (.keep, rest)
    else if g.char = '-' then some (.strip, rest)
    else none
  | [] => none

/-- Reads the indentation of a block, a digit. -/
def increment? : List Glyph → Option (Nat × List Glyph)
  | g :: rest => if g.char.isDigit then some (g.char.toNat - 48, rest) else none
  | [] => none

/-- Reads the header of a block, whose two parts may stand in either order. -/
def header (gs : List Glyph) : Header × List Glyph :=
  match chomping? gs with
  | some (chomping, gs) =>
    match increment? gs with
    | some (n, gs) => (⟨chomping, some n⟩, gs)
    | none => (⟨chomping, none⟩, gs)
  | none =>
    match increment? gs with
    | some (n, gs) =>
      match chomping? gs with
      | some (chomping, gs) => (⟨chomping, some n⟩, gs)
      | none => (⟨.clip, some n⟩, gs)
    | none => ({}, gs)

/-- Reads the empty lines before a block. With a known indentation only so many blanks are passed
over. The answer has the breaks, the widest indentation, and the rest. -/
def leadingBreaks? (indent : Option Nat) (widest : Nat) :
    List Glyph → Option (List Char × Nat × List Glyph)
  | [] => some ([], widest, [])
  | g :: rest =>
    let widest := max widest g.column
    let indents := indent.all (g.column < ·)
    if isBreak g.char then do
      let (breaks, widest, rest) ← leadingBreaks? indent widest rest
      return (g.char :: breaks, widest, rest)
    else if indents && g.char == ' ' then leadingBreaks? indent widest rest
    else if indents && g.char == '\t' then none
    else some ([], widest, g :: rest)

/-- Where the reading of a block stands. -/
structure BlockState where
  /-- Whether a line has started. -/
  inLine : Bool := false
  /-- The break that ended the last line. -/
  first : List Char := []
  /-- The breaks of the empty lines after it. -/
  more : List Char := []
  /-- Whether the last line started with a blank. -/
  wasBlank : Bool := false
  deriving DecidableEq, Repr, Inhabited

/-- The text between the last line of a block and the next one, which starts with `c`. In a folded
block, a line feed between two lines that start with no blank becomes a space. -/
def BlockState.joint (s : BlockState) (isFolded : Bool) (c : Char) : List Char :=
  if isFolded && s.first == ['\n'] && !s.wasBlank && !isBlank c then
    if s.more.isEmpty then [' '] else s.more
  else s.first ++ s.more

/-- The text after the last line of a block. -/
def BlockState.tail (s : BlockState) : Chomping → List Char
  | .strip => []
  | .clip => s.first
  | .keep => s.first ++ s.more

/-- Reads the lines of a block. -/
def blockLines? (isFolded : Bool) (chomping : Chomping) (indent : Nat) (s : BlockState) :
    List Glyph → Option (List Char × List Glyph)
  | [] => some (s.tail chomping, [])
  | g :: rest =>
    if s.inLine then
      if isBreak g.char then
        blockLines? isFolded chomping indent
          { inLine := false, first := [g.char], wasBlank := s.wasBlank } rest
      else do
        let (text, rest) ← blockLines? isFolded chomping indent s rest
        return (g.char :: text, rest)
    else if isBreak g.char then
      blockLines? isFolded chomping indent { s with more := s.more ++ [g.char] } rest
    else if g.column < indent then
      if g.char = ' ' then blockLines? isFolded chomping indent s rest
      else if g.char = '\t' then none
      else some (s.tail chomping, g :: rest)
    else do
      let (text, rest) ← blockLines? isFolded chomping indent
        { inLine := true, wasBlank := isBlank g.char } rest
      return (s.joint isFolded g.char ++ g.char :: text, rest)

/-- Reads a block after its mark. `parent` is the column of the mapping around it. -/
def block? (isFolded : Bool) (parent : Option Nat) (gs : List Glyph) :
    Option (List Char × List Glyph) := do
  let (header, gs) := header gs
  if header.increment = some 0 then none
  else
    let gs ← skipLine? gs
    let known := header.increment.map fun n => parent.getD 0 + n
    let (breaks, widest, gs) ← leadingBreaks? known 0 gs
    let indent := known.getD (max 1 (max widest ((parent.map (· + 1)).getD 0)))
    blockLines? isFolded header.chomping indent { more := breaks } gs

end CrossIndex.Yaml
