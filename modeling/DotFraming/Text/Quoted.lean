import DotFraming.Text.Printable

/-!
# Quoted text

A text is quoted so that it can be read off a log line: it stands between quotes, and whatever
cannot be printed is written as an escape.

* `quoteMark` : which of the two quotes is used.
* `escape` : how one character is written between the quotes.
* `quote` : the quoted text. It is made of printable characters only.
-/

namespace DotFraming

namespace Text

/-- The hexadecimal digits, in lower case. -/
def hexDigits : List Char :=
  ['0', '1', '2', '3', '4', '5', '6', '7', '8', '9', 'a', 'b', 'c', 'd', 'e', 'f']

/-- The lowest `width` hexadecimal digits of `n`, the highest first. -/
def hex : Nat → Nat → Text
  | 0, _ => []
  | width + 1, n => hex width (n / 16) ++ [hexDigits.getD (n % 16) '0']

/-- A text is put between single quotes, unless it holds a single quote and no double quote. -/
def quoteMark (t : Text) : Char :=
  if t.contains '\'' && !t.contains '"' then '"' else '\''

/-- One character between the quotes `mark`. The quote itself and the backslash get a backslash,
three control characters have letters of their own, and any other unprintable character is written
by its code point in two, four or eight hexadecimal digits. -/
def escape (mark c : Char) : Text :=
  if c = mark || c = '\\' then ['\\', c]
  else if c = '\n' then ['\\', 'n']
  else if c = '\r' then ['\\', 'r']
  else if c = '\t' then ['\\', 't']
  else if isPrintable c then [c]
  else if c.toNat < 0x100 then '\\' :: 'x' :: hex 2 c.toNat
  else if c.toNat < 0x10000 then '\\' :: 'u' :: hex 4 c.toNat
  else '\\' :: 'U' :: hex 8 c.toNat

/-- The text between quotes. -/
def quote (t : Text) : Text :=
  quoteMark t :: t.flatMap (escape (quoteMark t)) ++ [quoteMark t]

end Text

end DotFraming
