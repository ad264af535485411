import DotFraming.Fault
import DotFraming.Log

/-!
# Statements for the log

A statement is made with data by name. Two of the names do not stand for data: `origin` is where the
entry comes from, and `at` when it happened. What a statement says in a place of its own, as its
message, cannot be said once more by name.

* `Statement` : what is stated.
* `Statement.entry` : the entry that a statement and its data make, or why they make none.
-/

namespace DotFraming

/-- What is stated in the log. -/
structure Statement where
  /-- How serious it is. -/
  level : Level
  /-- What happened. -/
  message : Option String
  /-- The code of an error. -/
  code : Value := .null

namespace Statement

/-- The names of what a statement says in a place of its own. Only errors have a code. -/
def taken (s : Statement) : List String :=
  match s.level with
  | .error => ["message", "code"]
  | .debug | .info | .warning => ["message"]

/-- The names that stand for something about the entry itself. -/
def reserved : List String := ["origin", "at"]

/-- The value that goes by a name, null if none does. -/
def named (name : String) (data : List (String × Value)) : Value := (data.lookup name).getD .null

/-- The entry that a statement and its data make. -/
def entry (s : Statement) (data : List (String × Value)) : Except Fault Entry :=
  match data.find? fun d => s.taken.contains d.1 with
  | some d => .error (.givenTwice s.level.lowerName d.1)
  | none =>
    .ok
      { origin := named "origin" data
        time := named "at" data
        level := s.level
        message := s.message
        value := s.code
        context := some (data.filter fun d => !reserved.contains d.1) }

end Statement

end DotFraming
