import DotFraming.Log
import DotFraming.Source

/-!
# Readers of dot-terminated messages

A message is a sequence of lines that end with CR LF; a line that starts with a dot is sent with
that dot doubled, and a line with a single dot ends the message. A reader undoes this: it hands out
the text of the message with another line ending in place of every CR LF.

* `Reader` : the state of a reader.
* `Reading` : a reader at work on a source.
* `readOne` : the next piece of the decoded text. How much of a line ending or terminator has been
  seen is told by where it stands: `afterFirstDot`, `afterCR`, `afterCRLF` and `afterCRLFDot` are
  the points at which it looks one piece further.
-/

namespace DotFraming

/-- The state of a reader. -/
structure Reader where
  /-- The line ending that is handed out in place of CR LF. -/
  eol : Text
  /-- It is not empty. -/
  eol_ne_nil : eol ≠ []
  /-- Decoded text that is handed out piece by piece. -/
  pending : Text := []
  /-- How much of it has been handed out. -/
  cursor : Nat := 0
  /-- Nothing has been read yet. -/
  atBeginning : Bool := true
  /-- The end of the message has been seen. -/
  eof : Bool := false
  /-- The reader is done with its source. -/
  closed : Bool := false
  deriving DecidableEq, Repr

namespace Reader

/-- A new reader; its line ending must not be empty. -/
def new? (eol : Text) : Except Fault Reader :=
  if h : eol = [] then .error .emptyLineEnding else .ok { eol, eol_ne_nil := h }

/-- The decoded text that has not been handed out yet. -/
def staged (r : Reader) : Text := r.pending.drop r.cursor

theorem staged_advance {r : Reader} {c : Char} {u : Text} (h : r.staged = c :: u) :
    staged { r with cursor := r.cursor + 1 } = u := by
  unfold staged at *
  rw [← List.tail_drop, h, List.tail_cons]

/-- The text of a truth value. -/
def flagText (b : Bool) : String := if b then "True" else "False"

/-- The reader in words. -/
def describe (r : Reader) : String :=
  "DotTerminatedMessageReader(eol=" ++ String.ofList (Text.quote r.eol) ++ ", eof=" ++
    flagText r.eof ++ ", closed=" ++ flagText r.closed ++ ")"

end Reader

/-- Logs that the source ended within the message. -/
def Log.noteTruncated (log : Log) : Log :=
  log.note .warning "Source ended before the message terminator" []

/-- A reader at work: the source it draws on and the log it writes to. -/
structure Reading (σ : Type) where
  /-- The reader. -/
  reader : Reader
  /-- The source. -/
  source : σ
  /-- The log. -/
  log : Log

namespace Reading

variable {σ : Type} [AnySource σ]

/-- Reads a piece from the source. -/
def ask : Action (Reading σ) (Option Piece) := fun s =>
  match CharacterSource.read s.source with
  | .ok p source => .ok p { s with source }
  | .error e source => .error e { s with source }

/-- Hands a piece back to the source. -/
def putBack (p : Piece) : Action (Reading σ) Unit := fun s =>
  match CharacterSource.unread p s.source with
  | .ok () source => .ok () { s with source }
  | .error e source => .error e { s with source }

/-- Notes that the end of the message has been seen. -/
def finish : Action (Reading σ) Unit := fun s =>
  .ok () { s with reader := { s.reader with eof := true } }

/-- Notes that the source ended within the message. -/
def truncated : Action (Reading σ) Unit := fun s =>
  .ok ()
    { s with
      reader := { s.reader with eof := true }
      log := s.log.noteTruncated }

/-- Whether nothing had been read before; from now on something has. -/
def leaveBeginning : Action (Reading σ) Bool := fun s =>
  .ok s.reader.atBeginning { s with reader := { s.reader with atBeginning := false } }

/-- Hands out the first character of the line ending and `suffix`, and keeps the others for the
next calls. -/
def stage (suffix : Text) : Action (Reading σ) (Option Piece) := fun s =>
  let pending := s.reader.eol ++ suffix
  .ok (some (pending.take 1)) { s with reader := { s.reader with pending, cursor := 1 } }

/-- After CR LF and a dot at the start of a line. A second dot is text of the line; anything else
makes the line the terminator, of which one more piece is skipped. -/
def afterCRLFDot : Action (Reading σ) (Option Piece) := do
  match ← ask with
  | none =>
    truncated
    stage []
  | some p =>
    if p = dot then stage dot
    else
      let _ ← ask
      finish
      stage []

/-- After CR LF, at the start of a line. -/
def afterCRLF : Action (Reading σ) (Option Piece) := do
  match ← ask with
  | none =>
    truncated
    stage []
  | some p =>
    if p = dot then afterCRLFDot
    else
      putBack p
      stage []

/-- After CR. Without LF it is handed out as it is. -/
def afterCR : Action (Reading σ) (Option Piece) := do
  match ← ask with
  | none =>
    truncated
    pure (some cr)
  | some p =>
    if p = lf then afterCRLF
    else
      putBack p
      pure (some cr)

/-- After a dot at the very beginning. A second dot is text of the line; anything else makes the
line the terminator, of which one more piece is skipped. -/
def afterFirstDot : Action (Reading σ) (Option Piece) := do
  match ← ask with
  | none =>
    truncated
    pure none
  | some p =>
    if p = dot then pure (some dot)
    else
      let _ ← ask
      finish
      pure none

/-- Reads on when nothing is staged and the end has not been seen. -/
def readOn : Action (Reading σ) (Option Piece) := do
  match ← ask with
  | none =>
    truncated
    pure none
  | some p =>
    let first ← leaveBeginning
    if first = true ∧ p = dot then afterFirstDot
    else if p = cr then afterCR
    else pure (some p)

/-- The next piece of the decoded text, or `none` at the end of the message. What is staged comes
first. -/
def readOne : Action (Reading σ) (Option Piece) := fun s =>
  match s.reader.staged with
  | c :: _ => .ok (some [c]) { s with reader := { s.reader with cursor := s.reader.cursor + 1 } }
  | [] => if s.reader.eof || s.reader.closed then .ok none s else readOn s

end Reading

end DotFraming
