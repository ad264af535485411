import DotFraming.Source

/-!
# Scripted sources

A script lists what each read gives. It is the freest source there is: it may hand out anything,
end and go on, fail at any point, and it takes back whatever it is given.

* `Event` : the outcome of one read.
* `Script` : a source that follows a list of them.
-/

namespace DotFraming

/-- The outcome of one read. -/
inductive Event (α : Type) where
  /-- Something is handed out. -/
  | item (a : α)
  /-- The end of the stream, or nothing at the moment. -/
  | nothing
  /-- The read fails. -/
  | failure (fault : Fault)
  deriving DecidableEq, Repr

/-- A source that follows a list of events, and ends when they are used up. -/
structure Script where
  /-- What the next reads give. -/
  events : List (Event Piece)
  /-- The failure of every attempt to hand something back, if there is one. -/
  unreadFault : Option Fault := none
  deriving DecidableEq, Repr

namespace Script

/-- Follows the next event. -/
def read : Action Script (Option Piece) := fun s =>
  match s.events with
  | [] => .ok none s
  | .item p :: rest => .ok (some p) { s with events := rest }
  | .nothing :: rest => .ok none { s with events := rest }
  | .failure e :: rest => .error e { s with events := rest }

/-- Puts a piece in front of the events. -/
def unread (p : Piece) : Action Script Unit := fun s =>
  match s.unreadFault with
  | some e => .error e s
  | none => .ok () { s with events := .item p :: s.events }

instance : CharacterSource Script where
  read := read
  unread := unread
  ready _ := .ok true
  remaining s := s.events.length
  remaining_read s := by unfold read; split <;> simp_all
  remaining_read_some {s s' p} h := by
    unfold read at h
    split at h <;> cases h
    simp_all
  remaining_unread s p := by unfold unread; split <;> simp
  read_of_unread {s s' p} h := by
    unfold unread at h
    split at h <;> cases h
    exact ⟨_, rfl⟩

end Script

end DotFraming
