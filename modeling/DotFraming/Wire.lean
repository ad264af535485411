import DotFraming.Text

/-!
# The wire format

What a sender writes and what any text on the wire means, said without a reader.

* `Wire.encode` : the lines of a message as they are sent: a dot in front of every line that begins
  with one, CR LF after every line, and a line with a single dot at the end.
* `Wire.IsTerminator`, `Wire.body`, `Wire.rest` : where the first message in a text ends, what
  belongs to it, and what comes after it. The terminator is a dot at the start of a line and two
  more characters, whatever they are, unless the first of them is a dot.
* `Wire.decode`, `Wire.messages` : the text of the first message, and that of all messages.
-/

namespace DotFraming

namespace Wire

/-! ### Lines -/

/-- A line as it is sent. -/
def stuff : Text → Text
  | '.' :: t => '.' :: '.' :: t
  | t => t

/-- A line as it is meant. -/
def unstuff : Text → Text
  | '.' :: t => t
  | t => t

/-- A message as it is sent. -/
def encode (lines : List Text) : Text := lines.flatMap (fun l => stuff l ++ crlf) ++ '.' :: crlf

/-- The parts between the line endings of the wire. -/
def splitLines : Text → List Text
  | [] => [[]]
  | '\r' :: '\n' :: t => [] :: splitLines t
  | c :: t =>
    match splitLines t with
    | l :: ls => (c :: l) :: ls
    | [] => [[c]]

theorem splitLines_ne_nil (t : Text) : splitLines t ≠ [] := by
  fun_cases splitLines t <;> simp

/-! ### Messages -/

/-- The first message in a text ends with the line that begins at position `p`. -/
def IsTerminator (w : Text) (p : Nat) : Prop :=
  (p = 0 ∨ crlf <:+ w.take p) ∧ w[p]? = some '.' ∧ w[p + 1]? ≠ none ∧ w[p + 1]? ≠ some '.'

instance (w : Text) (p : Nat) : Decidable (IsTerminator w p) := by
  unfold IsTerminator
  infer_instance

/-- The first position at which a message ends. -/
def terminator? (w : Text) : Option Nat := (List.range w.length).find? fun p => IsTerminator w p

/-- What belongs to the first message, without the terminator. -/
def body (w : Text) : Text :=
  match terminator? w with
  | some p => w.take p
  | none => w

/-- What comes after the first message. -/
def rest (w : Text) : Text :=
  match terminator? w with
  | some p => w.drop (p + 3)
  | none => []

/-- The text of the first message, with `eol` in place of the line endings of the wire. -/
def decode (eol w : Text) : Text := eol.intercalate ((splitLines (body w)).map unstuff)

theorem length_rest_lt {w : Text} (h : rest w ≠ []) : (rest w).length < w.length := by
  have hpos := List.length_pos_iff.2 h
  unfold rest at hpos ⊢
  split at hpos <;> simp_all
  omega

/-- The texts of all messages. There is always a first one. -/
def messages (eol w : Text) : List Text :=
  decode eol w :: if _h : rest w = [] then [] else messages eol (rest w)
termination_by w.length
decreasing_by exact length_rest_lt _h

end Wire

end DotFraming
