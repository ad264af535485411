/-!
# Character encodings

* `Encoding` : the encodings the library reads and writes.
* `Encoding.messageName` : the name an encoding goes by in messages.
* `Encoding.named?` : the encoding a written name stands for.
-/

namespace DotFraming

/-- The supported character encodings. -/
inductive Encoding where
  /-- One byte per character, the byte being the code point. -/
  | latin1
  /-- One byte per character, below 128. -/
  | ascii
  /-- UTF-8. -/
  | utf8
  /-- UTF-16, low byte first, without a byte order mark. -/
  | utf16le
  /-- UTF-16, high byte first, without a byte order mark. -/
  | utf16be
  deriving DecidableEq, Repr

namespace Encoding

/-- The name of the encoding in messages. -/
def messageName : Encoding → String
  | latin1 => "latin-1"
  | ascii => "ascii"
  | utf8 => "utf-8"
  | utf16le => "utf-16-le"
  | utf16be => "utf-16-be"

/-- The proper name of the encoding, in the form that `canonicalName` gives. -/
def properName : Encoding → String
  | latin1 => "latin_1"
  | ascii => "ascii"
  | utf8 => "utf_8"
  | utf16le => "utf_16_le"
  | utf16be => "utf_16_be"

/-- The other names of the encoding, each in the form that `canonicalName` gives. -/
def aliases : Encoding → List String
  | latin1 =>
    ["latin1", "latin", "l1", "8859", "iso8859", "iso8859_1", "iso_8859_1", "iso_8859_1_1987",
     "iso_ir_100", "csisolatin1", "cp819", "ibm819"]
  | ascii =>
    ["us_ascii", "us", "646", "ansi_x3.4_1968", "ansi_x3_4_1968", "ansi_x3.4_1986", "cp367",
     "csascii", "ibm367", "iso646_us", "iso_646.irv_1991", "iso_ir_6"]
  | utf8 => ["utf8", "u8", "utf", "utf8_ucs2", "utf8_ucs4", "cp65001"]
  | utf16le => ["utf_16le", "unicodelittleunmarked"]
  | utf16be => ["utf_16be", "unicodebigunmarked"]

/-- All encodings. -/
def all : List Encoding := [latin1, ascii, utf8, utf16le, utf16be]

/-- Letters in lower case, digits and dots stay; each run of other characters between them counts
as one underscore, and those at the ends do not count. `gap` says that a run has just passed. -/
def canonicalChars (gap : Bool) : List Char → List Char
  | [] => []
  | c :: rest =>
    if c.isAlphanum || c == '.' then
      if gap then '_' :: c.toLower :: canonicalChars false rest
      else c.toLower :: canonicalChars false rest
    else canonicalChars true rest

/-- A written name in the form in which names are compared. -/
def canonicalName (name : String) : String :=
  String.ofList (canonicalChars false
    (name.toList.dropWhile fun c => !(c.isAlphanum || c == '.')))

/-- A name with underscores in place of its dots. -/
def withoutDots (name : String) : String :=
  String.ofList (name.toList.map fun c => if c = '.' then '_' else c)

/-- Whether a name in canonical form is one of the encoding's. Only in the place of its other names
may dots stand for underscores. -/
def hasName (e : Encoding) (name : String) : Bool :=
  e.properName == name || e.aliases.contains name || e.aliases.contains (withoutDots name)

/-- The encoding that a written name stands for, if there is one. -/
def named? (name : String) : Option Encoding := all.find? fun e => e.hasName (canonicalName name)

end Encoding

end DotFraming
