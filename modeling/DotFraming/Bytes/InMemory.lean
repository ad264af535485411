import DotFraming.Bytes
import DotFraming.Source.Memory

/-!
# Bytes in memory as a stream

* `ByteBlock` : bytes that are read from front to back.
-/

namespace DotFraming

/-- Bytes that are read from front to back. -/
structure ByteBlock where
  /-- What has not been read yet. -/
  rest : List UInt8
  deriving DecidableEq, Repr

namespace ByteBlock

/-- Cuts off up to `size` bytes, all if `size` is negative. -/
def read (_ : ReadStyle) (size : Int) : Action ByteBlock (Option (List UInt8)) := fun s =>
  match Memory.cut size s.rest with
  | .ok (front, rest) => .ok (some front) ⟨rest⟩
  | .error e => .error e s

/-- Bytes in memory are always available and have no descriptor. -/
instance : ByteStream ByteBlock where
  read := read
  offersAvailable _ := true
  readable? _ := none
  remaining s := s.rest.length
  remaining_read {style n s s' data} h := by
    unfold read at h
    split at h
    · next hc =>
      cases h
      exact Nat.le_of_eq (Memory.length_of_cut hc)
    · cases h
  remaining_le style n s := by
    unfold read
    split
    · next hc => exact Nat.le.intro (Memory.length_of_cut hc)
    · exact Nat.le_refl _

end ByteBlock

end DotFraming
