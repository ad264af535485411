import DotFraming.Reader.Operations

/-!
# Requests to a reader as data

* `Operation` : everything a reader can be asked for.
* `Answer` : what it answers.
* `Operation.perform` : one request.
* `Operation.performAll` : requests one after another, failing ones included.
-/

namespace DotFraming

/-- A request to a reader. -/
inductive Operation where
  /-- The next piece. -/
  | readOne
  /-- Up to a number of characters, all if it is negative. -/
  | read (size : Int)
  /-- The next line. -/
  | readLine
  /-- The next line, unless there is none. -/
  | next
  /-- All lines that are left. -/
  | lines
  /-- Characters into a buffer. -/
  | readInto (buffer : List Piece) (offset : Int) (length : Option Int)
  /-- Whether something can be had without waiting. -/
  | ready
  /-- The end of the reader's work. -/
  | close
  deriving DecidableEq, Repr

/-- The answer to a request. -/
inductive Answer where
  /-- A piece, or the end of the message. -/
  | piece (p : Option Piece)
  /-- A text. -/
  | text (t : Text)
  /-- A line, or the end of the message. -/
  | line (t : Option Text)
  /-- Lines. -/
  | lines (ts : List Text)
  /-- How many characters were put into a buffer, if the message had not ended before. -/
  | count (n : Option Nat)
  /-- Yes or no. -/
  | flag (b : Bool)
  /-- It is done. -/
  | done
  deriving DecidableEq, Repr

/-- What a request leads to. -/
structure Outcome (σ : Type) where
  /-- The answer, or the failure. -/
  answer : Except Fault Answer
  /-- The buffer that came with the request, as it is afterwards. -/
  buffer : Option (List Piece) := none
  /-- The reader, its source and its log afterwards. -/
  after : Reading σ

namespace Outcome

variable {σ α : Type}

/-- The outcome of a computation whose values are answers of one kind. -/
def ofResult (kind : α → Answer) : EStateM.Result Fault (Reading σ) α → Outcome σ
  | .ok a s => { answer := .ok (kind a), after := s }
  | .error e s => { answer := .error e, after := s }

end Outcome

namespace Operation

variable {σ : Type} [CharacterSource σ]

/-- Fulfils a request. -/
def perform (op : Operation) (s : Reading σ) : Outcome σ :=
  match op with
  | readOne => .ofResult .piece (Reading.readOne s)
  | read size => .ofResult .text (Reading.read size s)
  | readLine => .ofResult .text (Reading.readLine s)
  | next => .ofResult .line (Reading.next s)
  | lines => .ofResult .lines (Reading.lines s)
  | readInto buffer offset length =>
    let (buffer, r) := Reading.readInto buffer offset length s
    { Outcome.ofResult .count r with buffer := some buffer }
  | ready => { answer := s.ready.map .flag, after := s }
  | close => .ofResult (fun _ => .done) (Reading.close s)

/-- Fulfils requests one after another and gives all outcomes. -/
def performAll : List Operation → Reading σ → List (Outcome σ) × Reading σ
  | [], s => ([], s)
  | op :: ops, s =>
    let o := op.perform s
    let (os, t) := performAll ops o.after
    (o :: os, t)

end Operation

end DotFraming
