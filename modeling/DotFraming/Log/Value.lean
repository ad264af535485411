import DotFraming.Decimal.Shortest
import DotFraming.Terminal
import DotFraming.Text.Quoted

/-!
# Values in log entries

* `Number`, `Value` : what an entry can carry.
* `Value.brief` : a value as it stands in the data at the end of a log line. Texts are quoted when
  they could be mistaken for something else, numbers have two places.
* `Value.plain` : a value as it stands in the origin and in the code of an entry.
* `Value.isNothing` : the values in whose place others are taken.
-/

namespace DotFraming

/-- An integer or a floating-point number. -/
inductive Number where
  /-- An integer of any size. A limit that a runtime may set to the number of digits that it writes
  is not modelled. -/
  | int (i : Int)
  /-- A floating-point number. -/
  | float (x : Float)

/-- A value that a log entry can carry. -/
inductive Value where
  /-- No value. -/
  | null
  /-- A truth value. -/
  | bool (b : Bool)
  /-- A number. -/
  | number (n : Number)
  /-- A text. -/
  | text (s : String)
  /-- A list. -/
  | list (items : List Value)
  /-- A tuple, which differs from a list in its plain form only. -/
  | tuple (items : List Value)
  /-- Named values, in their order. -/
  | record (fields : List (String × Value))

namespace Number

/-- Floating-point numbers are written positionally from a ten-thousandth up to ten to the
sixteenth, and with an exponent of at least two digits elsewhere. -/
def layout : Layout := ⟨-4, 16, 2⟩

/-- A number with two decimal places unless it is an integer, of which all digits are written. -/
def brief : Number → String
  | int i => toString i
  | float x => String.ofList (fixed 2 (.ofFloat x))

/-- A number in full. -/
def plain : Number → String
  | int i => toString i
  | float x => String.ofList (layout.text (.ofFloat x))

/-- Whether a number is zero. -/
def isZero : Number → Bool
  | int i => i == 0
  | float x => x == 0

end Number

namespace Value

/-- Whether a value counts as nothing: none, false, zero, or empty. -/
def isNothing : Value → Bool
  | null => true
  | bool b => !b
  | number n => n.isZero
  | text s => s == ""
  | list items | tuple items => items.isEmpty
  | record fields => fields.isEmpty

/-- Texts joined by a separator. -/
def joined (separator : String) : List String → String
  | [] => ""
  | [s] => s
  | s :: rest => s ++ separator ++ joined separator rest

/-- A text stands for itself unless it holds a space or something unprintable. -/
def briefText (s : String) : String :=
  if s.toList.contains ' ' || !s.toList.all Text.isPrintable then
    String.ofList (Text.quote s.toList)
  else s

mutual

/-- A value as it stands in the data of a log line. -/
def brief (p : Palette) : Value → String
  | null => "◌"
  | bool b => if b then "✓" else "✗"
  | number n => n.brief
  | text s => briefText s
  | list [] => "◌"
  | list items => joined "," (briefItems p items)
  | tuple [] => "◌"
  | tuple items => joined "," (briefItems p items)
  | record [] => "◌"
  | record fields => joined " " (briefFields p fields)

/-- The items of a list. -/
def briefItems (p : Palette) : List Value → List String
  | [] => []
  | v :: rest => brief p v :: briefItems p rest

/-- Named values, each after its name in bold letters. -/
def briefFields (p : Palette) : List (String × Value) → List String
  | [] => []
  | (name, v) :: rest => (p.bold ++ name ++ p.reset ++ "=" ++ brief p v) :: briefFields p rest

end

mutual

/-- A value inside another one, in full and with quotes around texts. -/
def nested : Value → String
  | null => "None"
  | bool b => if b then "True" else "False"
  | number n => n.plain
  | text s => String.ofList (Text.quote s.toList)
  | list items => "[" ++ joined ", " (nestedItems items) ++ "]"
  | tuple [v] => "(" ++ nested v ++ ",)"
  | tuple items => "(" ++ joined ", " (nestedItems items) ++ ")"
  | record fields => "\x7b" ++ joined ", " (nestedFields fields) ++ "\x7d"

/-- The items of a list. -/
def nestedItems : List Value → List String
  | [] => []
  | v :: rest => nested v :: nestedItems rest

/-- Named values. -/
def nestedFields : List (String × Value) → List String
  | [] => []
  | (name, v) :: rest =>
    (String.ofList (Text.quote name.toList) ++ ": " ++ nested v) :: nestedFields rest

end

/-- A value as it stands in the origin or the code of an entry: a text stands for itself. -/
def plain : Value → String
  | text s => s
  | v => nested v

end Value

end DotFraming
