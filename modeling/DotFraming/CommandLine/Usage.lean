import DotFraming.CommandLine.Options

/-!
# How the program is used

* `usage`, `help` : how the program is used, in a line and at length.
* `fill` : words in lines of a width.
* `refusalLine` : the line that says why a command line is refused.
-/

namespace DotFraming

namespace CommandLine

/-- The name under which the program is run. -/
def programName : String := "dotstream"

/-- How the program is used, in one line. -/
def usage : String :=
  "usage: " ++ programName ++ " [-h] [-e \x7bnative,lf,crlf,cr\x7d] [-E ENCODING] [-a] [PATH]\n"

/-- Fills lines of a width with words, `line` being the one that has been begun. -/
def fillFrom (width : Nat) (line : String) : List String → List String
  | [] => [line]
  | w :: ws =>
    if line.length + 1 + w.length ≤ width then fillFrom width (line ++ " " ++ w) ws
    else line :: fillFrom width w ws

/-- Fills lines of a width with words. -/
def fill (width : Nat) : List String → List String
  | [] => []
  | w :: ws => fillFrom width w ws

/-- The column in which explanations begin. -/
def column : Nat := 24

/-- The width of explanations, which end two columns before the eightieth. -/
def width : Nat := 78 - column

/-- Blanks. -/
def blanks (n : Nat) : String := String.ofList (List.replicate n ' ')

/-- A line of an explanation. -/
def indented (line : String) : String := blanks column ++ line ++ "\n"

/-- What can be written on the command line and what it is for. The explanation begins in the same
line if there is room for it. -/
def item (written explanation : String) : String :=
  let head := "  " ++ written
  match fill width (explanation.splitOn " ") with
  | [] => head ++ "\n"
  | first :: rest =>
    let begun :=
      if head.length + 2 ≤ column then head ++ blanks (column - head.length) ++ first ++ "\n"
      else head ++ "\n" ++ indented first
    begun ++ String.join (rest.map indented)

/-- How the program is used, given the encoding that it takes unless told otherwise. -/
def help (encoding : String) : String :=
  usage ++ "\nDecodes dot-terminated messages (NNTP, POP3) from a file or stdin\n\n" ++
    "positional arguments:\n" ++
    item "PATH" "The file to decode, stdin when omitted (default: None)" ++
    "\noptions:\n" ++
    item "-h, --help" "show this help message and exit" ++
    item "-e \x7bnative,lf,crlf,cr\x7d, --eol \x7bnative,lf,crlf,cr\x7d"
      "Line terminator written in place of CRLF (default: native)" ++
    item "-E ENCODING, --encoding ENCODING"
      ("Encoding of the input and output (default: " ++ encoding ++ ")") ++
    item "-a, --all"
      "Decodes consecutive messages until the input is exhausted (default: False)"

/-- The line that says why a command line is refused. -/
def refusalLine (r : Refusal) : String := programName ++ ": error: " ++ r.message

end CommandLine

end DotFraming
