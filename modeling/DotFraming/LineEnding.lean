import DotFraming.Fault
import DotFraming.Text.Blank

/-!
# Line endings by name

* `LineEnding` : the line endings that have names.
* `LineEnding.named` : the text of the line ending with a given name.
-/

namespace DotFraming

/-- A line ending that has a name. -/
inductive LineEnding where
  /-- That of the system. -/
  | native
  /-- Line feed. -/
  | lf
  /-- Carriage return and line feed. -/
  | crlf
  /-- Carriage return. -/
  | cr
  deriving DecidableEq, Repr

namespace LineEnding

/-- The name of the line ending. -/
def name : LineEnding → String
  | native => "native"
  | lf => "lf"
  | crlf => "crlf"
  | cr => "cr"

/-- The text of the line ending. The system's own is the line feed. -/
def text : LineEnding → Text
  | native => ['\n']
  | lf => ['\n']
  | crlf => ['\r', '\n']
  | cr => ['\r']

/-- All line endings that have names. -/
def all : List LineEnding := [native, lf, crlf, cr]

/-- The text of the line ending with the given name, up to case and blanks around it. Without a
name, or with an empty one, it is that of the system. -/
def named (name : Option String) : Except Fault Text :=
  match name with
  | none => .ok native.text
  | some written =>
    if written = "" then .ok native.text
    else
      match all.find? fun l => Text.sameName l.name written with
      | some l => .ok l.text
      | none => .error (.unknownLineEnding written)

theorem text_ne_nil (l : LineEnding) : l.text ≠ [] := by cases l <;> simp [text]

end LineEnding

end DotFraming
