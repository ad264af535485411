import DotFraming.Log.Level
import DotFraming.Log.Value

/-!
# The log

* `Entry`, `Entry.line` : an entry, and the line it is written as.
* `Log` : the least level that is written, the origin of entries that name none, and the entries
  written so far.
* `Log.send` : writes an entry if its level is high enough.
* `Log.entry`, `Log.note` : makes an entry, and makes and sends one.
-/

namespace DotFraming

/-- A log entry. -/
structure Entry where
  /-- The part of the program it comes from. -/
  origin : Value
  /-- When it happened, if that was said. -/
  time : Value := .null
  /-- How serious it is. -/
  level : Level := .info
  /-- What happened. -/
  message : Option String := none
  /-- A code or another value that sums it up. -/
  value : Value := .null
  /-- Further data. -/
  context : Option (List (String × Value)) := none

namespace Entry

/-- The code of an entry between brackets, nothing if it has none. -/
def codeText (e : Entry) : String :=
  match e.value with
  | .null => ""
  | v => " [" ++ v.plain ++ "]"

/-- The further data of an entry as a value. -/
def contextValue (e : Entry) : Value :=
  match e.context with
  | none => .null
  | some fields => .record fields

/-- The line an entry is written as. -/
def line (p : Palette) (e : Entry) : String :=
  p.color e.level.color false ++ p.bold ++ "[" ++ e.origin.plain ++ "]" ++ p.reset ++ e.codeText ++
    " " ++ e.message.getD "None" ++ " " ++ e.contextValue.brief p ++ p.reset ++ "\n"

end Entry

/-- A log. -/
structure Log where
  /-- The least level that is written. -/
  level : Level := .warning
  /-- The origin of entries that name none. -/
  origin : Value := .text "dotstream"
  /-- What has been written, in order. -/
  entries : List Entry := []

namespace Log

/-- Whether entries of a level are written. -/
def writes (log : Log) (level : Level) : Bool := log.level ≤ level

/-- Writes an entry, unless its level is too low. -/
def send (log : Log) (e : Entry) : Log :=
  if log.writes e.level then { log with entries := log.entries ++ [e] } else log

/-- An entry whose origin is the log's own unless it names one. -/
def entry (log : Log) (e : Entry) : Entry :=
  if e.origin.isNothing then { e with origin := log.origin } else e

/-- Sends an entry without a code from the log's own origin. -/
def note (log : Log) (level : Level) (message : String) (context : List (String × Value)) : Log :=
  log.send { origin := log.origin, level, message := some message, context := some context }

/-- What has been written, as text. -/
def text (log : Log) (p : Palette) : String :=
  log.entries.foldl (fun acc e => acc ++ e.line p) ""

theorem send_eq (log : Log) (e : Entry) :
    log.send e =
      { log with entries := log.entries ++ if log.level ≤ e.level then [e] else [] } := by
  unfold send writes
  by_cases h : log.level ≤ e.level <;> simp [h]

@[simp] theorem level_send (log : Log) (e : Entry) : (log.send e).level = log.level := by
  rw [send_eq]

theorem entries_send (log : Log) (e : Entry) :
    (log.send e).entries = log.entries ++ if log.level ≤ e.level then [e] else [] := by
  rw [send_eq]

end Log

end DotFraming
