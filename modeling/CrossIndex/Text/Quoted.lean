/-
Quoted text for messages: a text between double quotes in which the quote, the backslash and every
character that would not be seen are written as escapes.
-/
import CrossIndex.Text.Blank
import CrossIndex.Text.Hex
import CrossIndex.Text.Unassigned
import CrossIndex.Text.Unseen

namespace CrossIndex.Text

/-- Whether a character would not be seen in a quoted text: a control, a blank other than the space,
a character that does not show on its own, or none at all. -/
def isHidden (c : Char) : Bool :=
  isControl c || (isBlank c && c != ' ') || isUnseen c || isUnassigned c

/-- How one character stands in a quoted text. -/
def quotedChar (c : Char) : List Char :=
  if c = '"' then ['\\', '"']
  else if c = '\\' then ['\\', '\\']
  else if c = '\t' then ['\\', 't']
  else if c = '\n' then ['\\', 'n']
  else if c = '\r' then ['\\', 'r']
  else if c.toNat = 0 then ['\\', '0']
  else if isHidden c then ['\\', 'u', '\x7b'] ++ hexDigits c.toNat ++ ['\x7d']
  else [c]

/-- A text between double quotes, with quotes, backslashes and hidden characters escaped. -/
def quoted (s : String) : String :=
  String.ofList ('"' :: s.toList.flatMap quotedChar ++ ['"'])

end CrossIndex.Text
