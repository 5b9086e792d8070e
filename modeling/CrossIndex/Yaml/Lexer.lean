/-
From the text of a YAML document to its tokens. Whether a scalar is a key shows only at the colon
after it, so the last place where a key may have started is kept, and the tokens that open the key
are put in there. A key ends on its line, within 1024 characters.
-/
import CrossIndex.Yaml.Property

namespace CrossIndex.Yaml

/-- Where a key may have started. -/
structure Candidate where
  /-- Whether nothing but a key may stand there. -/
  required : Bool
  /-- How many tokens stand before it. -/
  position : Nat
  place : Glyph
  deriving DecidableEq, Repr, Inhabited

/-- Where the reading of a document stands. -/
structure Lexer where
  rest : List Glyph
  /-- The tokens read so far, the last one first. -/
  tokens : List Token := []
  /-- The columns of the open block mappings, the innermost first. -/
  indents : List Nat := []
  /-- Where a key may have started in the innermost mapping. -/
  candidate : Option Candidate := none
  /-- The same for the mappings around each open flow mapping. -/
  outer : List (Option Candidate) := []
  /-- Whether a key may start here. -/
  keyAllowed : Bool := true
  deriving Inhabited

namespace Lexer

/-- Whether a flow mapping is open. -/
def inFlow (l : Lexer) : Bool :=
  !l.outer.isEmpty

/-- Adds a token. -/
def push (l : Lexer) (t : Token) : Lexer :=
  { l with tokens := t :: l.tokens }

/-- Puts a token in before those from a position on. -/
def insert (l : Lexer) (position : Nat) (t : Token) : Lexer :=
  { l with tokens := l.tokens.insertIdx (l.tokens.length - position) t }

/-- Passes over blanks, comments and line breaks. Where a key may start in a block, a tab is no
blank; a new line of a block may start with a key. -/
def skipGap (l : Lexer) : Lexer :=
  let (keyAllowed, rest) := go false l.keyAllowed l.rest
  { l with keyAllowed, rest }
where
  go (inComment keyAllowed : Bool) : List Glyph → Bool × List Glyph
    | [] => (keyAllowed, [])
    | g :: gs =>
      if isBreak g.char then go false (keyAllowed || !l.inFlow) gs
      else if inComment then go true keyAllowed gs
      else if g.char = ' ' ∨ (g.char = byteOrderMark ∧ g.column = 0) then go false keyAllowed gs
      else if g.char = '\t' ∧ (l.inFlow || !keyAllowed) then go false keyAllowed gs
      else if g.char = '#' then go true keyAllowed gs
      else (keyAllowed, g :: gs)

/-- Gives up the place where a key may have started. -/
def dropCandidate? (l : Lexer) : Option Lexer :=
  if l.candidate.any (·.required) then none else some { l with candidate := none }

/-- Whether a key that started at a place would have to have ended before a glyph. -/
def Candidate.isStale (c : Candidate) (g : Glyph) : Bool :=
  c.place.line < g.line || c.place.index + 1024 < g.index

/-- Gives up the places where a key may have started that are too far back. -/
def dropStale? (l : Lexer) (g : Glyph) : Option Lexer :=
  let stale (c : Option Candidate) : Bool := c.any (Candidate.isStale · g)
  let isBad (c : Option Candidate) : Bool := stale c && c.any (·.required)
  let kept (c : Option Candidate) : Option Candidate := if stale c then none else c
  if isBad l.candidate || l.outer.any isBad then none
  else some { l with candidate := kept l.candidate, outer := l.outer.map kept }

/-- Notes that a key may start at a glyph. -/
def markCandidate? (l : Lexer) (g : Glyph) : Option Lexer :=
  if l.keyAllowed then do
    let l ← l.dropCandidate?
    return { l with candidate := some {
      required := !l.inFlow && l.indents.head? == some g.column
      position := l.tokens.length
      place := g } }
  else some l

/-- Closes the block mappings that are indented further than a column. -/
def closeTo (l : Lexer) (column : Nat) : Lexer :=
  if l.inFlow then l
  else
    let closed := l.indents.takeWhile (column < ·)
    { l with
      tokens := closed.map (fun _ => Token.blockEnd) ++ l.tokens
      indents := l.indents.drop closed.length }

/-- Closes all block mappings. -/
def closeAll (l : Lexer) : Lexer :=
  if l.inFlow then l
  else { l with tokens := l.indents.map (fun _ => Token.blockEnd) ++ l.tokens, indents := [] }

/-- Opens a block mapping at a column, unless one is open there already. -/
def openBlock (l : Lexer) (column position : Nat) : Lexer :=
  if l.inFlow || l.indents.head?.any (column ≤ ·) then l
  else { l.insert position .blockStart with indents := column :: l.indents }

/-- Reads the mark of a document's bound, or a directive, before which all mappings are closed. -/
def bound? (l : Lexer) (t : Token) (rest : List Glyph) : Option Lexer := do
  let l ← l.closeAll.dropCandidate?
  return { l.push t with keyAllowed := false, rest }

/-- Reads the mark of a key. -/
def keyMark? (l : Lexer) (g : Glyph) (rest : List Glyph) : Option Lexer :=
  if !l.inFlow && !l.keyAllowed then none
  else do
    let l ← (l.openBlock g.column l.tokens.length).dropCandidate?
    return { l.push .key with keyAllowed := !l.inFlow, rest }

/-- Reads the mark of a value. If a key may have started before it, one has. -/
def valueMark? (l : Lexer) (g : Glyph) (rest : List Glyph) : Option Lexer :=
  match l.candidate with
  | some c =>
    let l := (l.insert c.position .key).openBlock c.place.column c.position
    some { l.push .value with candidate := none, keyAllowed := false, rest }
  | none =>
    if !l.inFlow && !l.keyAllowed then none
    else
      let l := l.openBlock g.column l.tokens.length
      some { l.push .value with keyAllowed := !l.inFlow, rest }

/-- Reads a property or a scalar, with which a key may start. -/
def node? (l : Lexer) (g : Glyph) (read : Option (Token × List Glyph)) : Option Lexer := do
  let l ← l.markCandidate? g
  let (t, rest) ← read
  return { l.push t with keyAllowed := false, rest }

/-- Reads a plain scalar. If a line has ended after it, a key may start. -/
def plainNode? (l : Lexer) (g : Glyph) (gs : List Glyph) : Option Lexer := do
  let indent := (l.indents.head?.map (· + 1)).getD 0
  let l ← l.markCandidate? g
  let p ← plain? l.inFlow indent {} gs
  let l := l.push (.scalar .plain (String.ofList p.text))
  return { l with keyAllowed := p.broken, rest := p.rest }

/-- Reads a block scalar, which is no key. -/
def blockNode? (l : Lexer) (style : Style) (rest : List Glyph) : Option Lexer := do
  let l ← l.dropCandidate?
  let (text, rest) ← block? (style == .folded) l.indents.head? rest
  return { l.push (.scalar style (String.ofList text)) with keyAllowed := true, rest }

/-- Whether no plain scalar may start with a character, whatever follows it. -/
def isIndicator (c : Char) : Bool :=
  ",[]\x7b\x7d#&*!|>'\"%@`".toList.contains c

/-- Whether a plain scalar starts with a glyph. A mark of a key, a value or a sequence starts one
only where it is no such mark. -/
def startsPlain (l : Lexer) (g : Glyph) (rest : List Glyph) : Bool :=
  if g.char = '-' then !rest.head?.any (isBlank ·.char)
  else if g.char = '?' ∨ g.char = ':' then !l.inFlow && !atGap rest
  else !isBlank g.char && !isIndicator g.char

/-- Text as a token of a scalar. -/
def scalarToken (style : Style) (read : Option (List Char × List Glyph)) :
    Option (Token × List Glyph) :=
  read.map fun (text, rest) => (.scalar style (String.ofList text), rest)

/-- Reads the token that starts with a glyph. What would be part of a sequence is refused. -/
def token? (l : Lexer) (g : Glyph) (rest : List Glyph) : Option Lexer :=
  let gs := g :: rest
  let isMark (c : Char) : Bool := g.char == c && (l.inFlow || atGap rest)
  if g.column = 0 ∧ g.char = '%' then do
    let (t, rest) ← directive? rest
    l.bound? t rest
  else if isMarker '-' gs then l.bound? .documentStart (gs.drop 3)
  else if isMarker '.' gs then l.bound? .documentEnd (gs.drop 3)
  else if g.char = '\x7b' then do
    let l ← l.markCandidate? g
    return { l.push .flowStart with
      outer := l.candidate :: l.outer, candidate := none, keyAllowed := true, rest }
  else if g.char = '\x7d' then do
    let l ← l.dropCandidate?
    return { l.push .flowEnd with
      candidate := l.outer.head?.join, outer := l.outer.drop 1, keyAllowed := false, rest }
  else if g.char = ',' then do
    let l ← l.dropCandidate?
    return { l.push .comma with keyAllowed := true, rest }
  else if g.char = '-' ∧ atGap rest then none
  else if isMark '?' then l.keyMark? g rest
  else if isMark ':' then l.valueMark? g rest
  else if g.char = '*' then
    l.node? g ((anchorName? rest).map fun (name, rest) => (.alias name, rest))
  else if g.char = '&' then
    l.node? g ((anchorName? rest).map fun (name, rest) => (.anchor name, rest))
  else if g.char = '!' then l.node? g ((tag? l.inFlow gs).map fun (t, rest) => (.tag t, rest))
  else if g.char = '|' ∧ !l.inFlow then l.blockNode? .literal rest
  else if g.char = '>' ∧ !l.inFlow then l.blockNode? .folded rest
  else if g.char = '\'' then l.node? g (scalarToken .quoted (singleQuoted? {} rest))
  else if g.char = '"' then l.node? g (scalarToken .quoted (doubleQuoted? {} rest))
  else if l.startsPlain g rest then l.plainNode? g gs
  else none

/-- Reads all tokens. Each takes a glyph at least, so as many steps as there are glyphs suffice. -/
def run? : Nat → Lexer → Option (List Token)
  | 0, _ => none
  | n + 1, l =>
    let l := l.skipGap
    match l.rest with
    | [] => l.closeAll.dropCandidate?.map fun l => l.tokens.reverse
    | g :: rest => do
      let l ← l.dropStale? g
      run? n (← (l.closeTo g.column).token? g rest)

end Lexer

/-- The tokens of a document. -/
def tokens? (s : String) : Option (List Token) := do
  let gs ← glyphs? s
  Lexer.run? (gs.length + 1) { rest := gs }

end CrossIndex.Yaml
