import DotFraming.Bytes
import DotFraming.Source.Memory

/-!
# The receiving end of a connection

* `Socket` : the bytes that have arrived, and whether the peer has hung up.
* `Socket.feed`, `Socket.hangUp` : what the peer does.
-/

namespace DotFraming

/-- The receiving end of a connection, which never waits. -/
structure Socket where
  /-- The bytes that have arrived and not been read. -/
  waiting : List UInt8 := []
  /-- The peer has hung up. -/
  hungUp : Bool := false
  deriving DecidableEq, Repr

namespace Socket

/-- The peer sends bytes. -/
def feed (data : List UInt8) (s : Socket) : Socket := { s with waiting := s.waiting ++ data }

/-- The peer hangs up. -/
def hangUp (s : Socket) : Socket := { s with hungUp := true }

/-- The descriptor is readable if bytes have arrived or the peer has hung up. -/
def readable (s : Socket) : Bool := !s.waiting.isEmpty || s.hungUp

/-- Takes up to `size` of the bytes that have arrived. -/
def read (_ : ReadStyle) (size : Int) : Action Socket (Option (List UInt8)) := fun s =>
  if s.readable then
    match Memory.cut size s.waiting with
    | .ok (front, waiting) => .ok (some front) { s with waiting }
    | .error e => .error e s
  else .ok none s

instance : ByteStream Socket where
  read := read
  offersAvailable _ := false
  readable? s := some s.readable
  remaining s := s.waiting.length
  remaining_read {style n s s' data} h := by
    unfold read at h
    split at h
    · split at h
      · next hc =>
        cases h
        exact Nat.le_of_eq (Memory.length_of_cut hc)
      · cases h
    · cases h
  remaining_le style n s := by
    unfold read
    split
    · split
      · next hc => exact Nat.le.intro (Memory.length_of_cut hc)
      · exact Nat.le_refl _
    · exact Nat.le_refl _

end Socket

end DotFraming
