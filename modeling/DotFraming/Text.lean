/-!
# Text, and the pieces a source hands out

Wire text is a list of characters. A source hands text out in *pieces*: one character at a time
in the usual case, but nothing forces a source to keep to that, so a piece is itself a text.

* `Text`, `Piece` : the two types.
* `cr`, `lf`, `dot`, `crlf` : the pieces and the line ending that the framing is made of.
-/

namespace DotFraming

/-- Text, one entry per Unicode scalar value. -/
abbrev Text := List Char

/-- What a source hands out in one read. A well-behaved source hands out single characters;
longer and empty pieces are passed through unchanged by everything in this library. -/
abbrev Piece := Text

/-- The carriage return, as a piece. -/
def cr : Piece := ['\r']

/-- The line feed, as a piece. -/
def lf : Piece := ['\n']

/-- The dot that marks stuffed lines and the terminator line, as a piece. -/
def dot : Piece := ['.']

/-- The line ending used on the wire. -/
def crlf : Text := ['\r', '\n']

end DotFraming
