import DotFraming.Source

/-!
# Streams of bytes

* `ReadStyle` : whether a read may wait until it has all that was asked for.
* `ByteStream` : the interface of byte streams.
-/

namespace DotFraming

/-- How a byte stream is read. -/
inductive ReadStyle where
  /-- The stream may wait for as many bytes as were asked for. -/
  | full
  /-- The stream gives what it has. -/
  | available
  deriving DecidableEq, Repr

/-- A stream of bytes. -/
class ByteStream (ρ : Type) where
  /-- Reads up to a number of bytes, all there are if it is negative. No bytes are the end of the
  stream; `none` says that there are none at the moment. -/
  read : ReadStyle → Int → Action ρ (Option (List UInt8))
  /-- Whether the stream can be read in the style `available`. -/
  offersAvailable : ρ → Bool
  /-- Whether the stream's descriptor is readable, if it has one. -/
  readable? : ρ → Option Bool
  /-- A bound on the number of bytes that are left. -/
  remaining : ρ → Nat
  /-- Reading uses up the bytes it gives. -/
  remaining_read : ∀ {style : ReadStyle} {n : Int} {s s' : ρ} {data : List UInt8},
    read style n s = .ok (some data) s' → remaining s' + data.length ≤ remaining s
  /-- Reading never adds to what is left. -/
  remaining_le : ∀ (style : ReadStyle) (n : Int) (s : ρ),
    remaining (stateAfter (read style n s)) ≤ remaining s

namespace ByteStream

/-- The style in which a stream is read by preference. -/
def style {ρ : Type} [ByteStream ρ] (s : ρ) : ReadStyle :=
  if offersAvailable s then .available else .full

end ByteStream

end DotFraming
