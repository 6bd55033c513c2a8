import RecordMapping.Text.Unprintable
import RecordMapping.Text.GraphemeExtend

/-!
# Quoted text

A quoted text stands between two double quotes. Quotes, backslashes and line ends inside it are
escaped with a backslash, and a character that cannot be seen on its own is written by its number.

## Implementation notes

A mark that attaches to the character before it is escaped as well, since it would otherwise attach
to whatever stands in front of it in the output. The sound marks of half-width Katakana are left
alone: they extend a grapheme but stand in a cell of their own. So is an apostrophe.
-/

namespace RecordMapping.Text.Quoted

/-- The number of a character in lower-case hexadecimal digits, between braces. -/
def escapeByNumber (c : Char) : List Char :=
  ['\\', 'u', '\x7b'] ++ Nat.toDigits 16 c.toNat ++ ['\x7d']

/-- Whether a character is the voiced or the semi-voiced sound mark of half-width Katakana. -/
def isSoundMark (c : Char) : Bool := c = '\uff9e' || c = '\uff9f'

/-- Whether a character cannot be seen on its own: it has no visible form, or it attaches to the
character before it without a cell of its own. -/
def isHidden (c : Char) : Bool := isUnprintable c || (extendsGrapheme c && !isSoundMark c)

/-- The form of one character between the quotes. -/
def escape (c : Char) : List Char :=
  if c = '\x00' then ['\\', '0']
  else if c = '\t' then ['\\', 't']
  else if c = '\r' then ['\\', 'r']
  else if c = '\n' then ['\\', 'n']
  else if c = '\\' then ['\\', '\\']
  else if c = '"' then ['\\', '"']
  else if isHidden c then escapeByNumber c
  else [c]

/-- The text between double quotes, each character escaped. -/
def encode (text : String) : String :=
  String.ofList ('"' :: text.toList.flatMap escape ++ ['"'])

end RecordMapping.Text.Quoted
