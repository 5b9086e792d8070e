/-
What may stand before a node or a document: names of anchors, tags, and directives.
-/
import CrossIndex.Yaml.Scalar
import CrossIndex.Yaml.Token

namespace CrossIndex.Yaml

/-- Whether a character may stand in a name. -/
def isNameChar (c : Char) : Bool :=
  c.isAlphanum || c == '_' || c == '-'

/-- Takes the longest start of glyphs whose characters meet a condition. -/
def span (p : Char → Bool) (gs : List Glyph) : List Char × List Glyph :=
  (chars (gs.takeWhile fun g => p g.char), gs.dropWhile fun g => p g.char)

/-- Reads the name of an anchor or an alias, after its mark. -/
def anchorName? (gs : List Glyph) : Option (String × List Glyph) :=
  let (name, rest) := span isNameChar gs
  let ended := atGap rest || rest.head?.any fun g => "?:,]\x7d%@`".toList.contains g.char
  if name.isEmpty || !ended then none else some (String.ofList name, rest)

/-- Whether a character may stand in a tag; between angle brackets some more may. -/
def isTagChar (verbatim : Bool) (c : Char) : Bool :=
  isNameChar c || ";/?:@&=+$.%!~*'()".toList.contains c || (verbatim && ",[]".toList.contains c)

/-- The octet that two hexadecimal digits after a percent sign write. -/
def octet? : List Char → Option (Nat × List Char)
  | '%' :: a :: b :: rest => (hexNumber? [a, b]).map fun n => (n, rest)
  | _ => none

/-- How many octets continue a character after its first octet, and the bits that this one gives. -/
def leadingOctet? (n : Nat) : Option (Nat × Nat) :=
  if n < 0x80 then some (0, n)
  else if n < 0xC0 then none
  else if n < 0xE0 then some (1, n - 0xC0)
  else if n < 0xF0 then some (2, n - 0xE0)
  else if n < 0xF8 then some (3, n - 0xF0)
  else none

/-- Reads the octets that continue a character. -/
def continued? : Nat → Nat → List Char → Option (Nat × List Char)
  | 0, bits, cs => some (bits, cs)
  | n + 1, bits, cs => do
    let (octet, cs) ← octet? cs
    if octet / 64 = 2 then continued? n (bits * 64 + octet % 64) cs else none

/-- The text of a tag, in which characters may be written as octets. As many steps as there are
characters suffice, since each step takes one at least. -/
def tagText? : Nat → List Char → Option (List Char)
  | _, [] => some []
  | 0, _ => none
  | n + 1, c :: cs =>
    if c = '%' then do
      let (octet, rest) ← octet? (c :: cs)
      let (more, bits) ← leadingOctet? octet
      let (point, rest) ← continued? more bits rest
      return Char.ofNat point :: (← tagText? n rest)
    else (tagText? n cs).map (c :: ·)

/-- Reads the text of a tag that starts with `head`; it must not be empty. -/
def tagSuffix? (verbatim : Bool) (head : List Char) (gs : List Glyph) :
    Option (String × List Glyph) := do
  let (written, rest) := span (isTagChar verbatim) gs
  if head.isEmpty && written.isEmpty then none
  else return (String.ofList (head.drop 1 ++ (← tagText? written.length written)), rest)

/-- Reads a handle: an exclamation mark, and a name with another one if that follows. -/
def tagHandle? : List Glyph → Option (List Char × List Glyph)
  | [] => none
  | g :: gs =>
    if g.char = '!' then
      let (name, rest) := span isNameChar gs
      match rest with
      | [] => some ('!' :: name, [])
      | next :: more =>
        if next.char = '!' then some ('!' :: name ++ ['!'], more) else some ('!' :: name, rest)
    else none

/-- Whether a handle has both its exclamation marks. -/
def isFullHandle (handle : List Char) : Bool :=
  1 < handle.length && handle.getLast? == some '!'

/-- Reads a tag, apart from what ends it. -/
def tagBody? (gs : List Glyph) : Option (Tag × List Glyph) :=
  match gs with
  | _ :: next :: rest =>
    if next.char = '<' then do
      let (suffix, rest) ← tagSuffix? true [] rest
      match rest with
      | g :: rest => if g.char = '>' then return (⟨"", suffix⟩, rest) else none
      | [] => none
    else short
  | _ => short
where
  short := do
    let (handle, rest) ← tagHandle? gs
    if isFullHandle handle then
      let (suffix, rest) ← tagSuffix? false [] rest
      return (⟨String.ofList handle, suffix⟩, rest)
    else
      let (suffix, rest) ← tagSuffix? false handle rest
      return (if suffix.isEmpty then ⟨"", "!"⟩ else ⟨"!", suffix⟩, rest)

/-- Reads a tag. A gap has to follow it, or, in a flow mapping, a comma. -/
def tag? (inFlow : Bool) (gs : List Glyph) : Option (Tag × List Glyph) := do
  let (tag, rest) ← tagBody? gs
  if atGap rest || (inFlow && rest.head?.any (·.char == ',')) then return (tag, rest) else none

/-- Reads a number of a version, of at most nine digits. -/
def versionNumber? (gs : List Glyph) : Option (Nat × List Glyph) :=
  let (digits, rest) := span Char.isDigit gs
  if digits.isEmpty || 9 < digits.length then none
  else some (digits.foldl (fun n c => n * 10 + (c.toNat - 48)) 0, rest)

/-- Reads the numbers of a version with a point between them. -/
def version? (gs : List Glyph) : Option (Token × List Glyph) := do
  let (major, rest) ← versionNumber? (skipBlanks gs)
  match rest with
  | [] => none
  | point :: rest =>
    if point.char = '.' then
      let (minor, rest) ← versionNumber? rest
      return (.version major minor, rest)
    else none

/-- Reads a handle and what it stands for. -/
def handleMeaning? (gs : List Glyph) : Option (Token × List Glyph) := do
  let (handle, rest) ← tagHandle? (skipBlanks gs)
  if !(isFullHandle handle || handle = ['!']) || !rest.head?.any (isBlank ·.char) then none
  else
    let (start, rest) ← tagSuffix? true [] (skipBlanks rest)
    if atGap rest then return (.handle (String.ofList handle) start, rest) else none

/-- Reads a directive after its percent sign, to the end of its line. -/
def directive? (gs : List Glyph) : Option (Token × List Glyph) := do
  let (name, rest) := span isNameChar gs
  if !atGap rest then none
  else
    let (token, rest) ←
      if name = "YAML".toList then version? rest
      else if name = "TAG".toList then handleMeaning? rest
      else none
    return (token, ← skipLine? rest)

end CrossIndex.Yaml
