import DotFraming.Bytes
import DotFraming.Source.Script

/-!
# Scripted byte streams

* `Descriptor` : what a stream knows about its descriptor.
* `Chunks` : a byte stream that follows a list of events, one per read, whatever size is asked for.
  It records the styles in which it was read.
-/

namespace DotFraming

/-- The descriptor of a stream. -/
inductive Descriptor where
  /-- There is none. -/
  | absent
  /-- It is always readable. -/
  | readable
  /-- It is never readable. -/
  | idle
  deriving DecidableEq, Repr

namespace Descriptor

/-- Whether the descriptor is readable, if there is one. -/
def readable? : Descriptor → Option Bool
  | absent => none
  | readable => some true
  | idle => some false

end Descriptor

/-- A byte stream that follows a list of events, and ends when they are used up. -/
structure Chunks where
  /-- What the next reads give. -/
  events : List (Event (List UInt8))
  /-- Whether it can be read in the style `available`. -/
  offersAvailable : Bool := true
  /-- Its descriptor. -/
  descriptor : Descriptor := .absent
  /-- The styles in which it was read, the latest first. -/
  styles : List ReadStyle := []
  deriving DecidableEq, Repr

namespace Chunks

/-- The bytes of an event. -/
def bytesOf : Event (List UInt8) → List UInt8
  | .item data => data
  | .nothing => []
  | .failure _ => []

/-- Follows the next event. -/
def read (style : ReadStyle) (_ : Int) : Action Chunks (Option (List UInt8)) := fun s =>
  let s := { s with styles := style :: s.styles }
  match s.events with
  | [] => .ok (some []) s
  | .item data :: rest => .ok (some data) { s with events := rest }
  | .nothing :: rest => .ok none { s with events := rest }
  | .failure e :: rest => .error e { s with events := rest }

instance : ByteStream Chunks where
  read := read
  offersAvailable := offersAvailable
  readable? s := s.descriptor.readable?
  remaining s := (s.events.flatMap bytesOf).length
  remaining_read {style n s s' data} h := by
    unfold read at h
    simp only at h
    split at h
    · next he =>
      cases h
      simp [he]
    · next he =>
      cases h
      simp [he, bytesOf, Nat.add_comm]
    · cases h
    · cases h
  remaining_le style n s := by
    unfold read
    simp only
    split <;> simp_all [bytesOf]

end Chunks

end DotFraming
