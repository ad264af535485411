import DotFraming.Text.Blank

/-!
# Levels of log entries

* `Level` : the levels, ordered by `Level.rank`.
* `Level.ofName` : the level with a written name.
-/

namespace DotFraming

/-- How serious a log entry is. -/
inductive Level where
  /-- Of use to developers. -/
  | debug
  /-- Regular progress. -/
  | info
  /-- An unexpected condition that was dealt with. -/
  | warning
  /-- A failure that was reported. -/
  | error
  deriving DecidableEq, Repr

namespace Level

/-- The place of the level in the order. -/
def rank : Level → Nat
  | debug => 0
  | info => 10
  | warning => 30
  | error => 40

instance : LE Level := ⟨fun a b => a.rank ≤ b.rank⟩

instance (a b : Level) : Decidable (a ≤ b) := inferInstanceAs (Decidable (a.rank ≤ b.rank))

/-- The number of the level's colour. -/
def color : Level → Nat
  | debug => 31
  | info => 75
  | warning => 202
  | error => 160

/-- The name of the level. -/
def name : Level → String
  | debug => "Debug"
  | info => "Info"
  | warning => "Warning"
  | error => "Error"

/-- All levels, in their order. -/
def all : List Level := [debug, info, warning, error]

/-- The name of the level in lower case. -/
def lowerName : Level → String
  | debug => "debug"
  | info => "info"
  | warning => "warning"
  | error => "error"

/-- The level with the given name, up to case and blanks around it, and `default` if the name is
missing or no level has it. -/
def ofName (name : Option String) (default : Level) : Level :=
  match name with
  | none => default
  | some written => (all.find? fun l => Text.sameName l.lowerName written).getD default

end Level

end DotFraming
