import DotFraming.Encoding.Scan
import DotFraming.Text

/-!
# Incremental decoding

Bytes arrive in portions that may end inside a character. A `Decoder` keeps such an unfinished end
and puts it in front of the next portion. A portion that cannot be decoded is dropped as a whole
and leaves the decoder as it was.

* `DecodingError` : where and why decoding failed.
* `Encoding.decode` : the characters of some bytes and the unfinished end.
* `Decoder.feed` : one portion.
* `Encoding.decodeAll`, `Encoding.encode` : whole texts.
* `length_decode` : no character comes out that no byte went in for.
-/

namespace DotFraming

/-- A failed attempt to decode. -/
structure DecodingError where
  /-- The encoding of the bytes. -/
  encoding : Encoding
  /-- The position of the first offending byte. -/
  start : Nat
  /-- The offending bytes. -/
  bytes : List UInt8
  /-- What is wrong with them. -/
  reason : Reason
  deriving DecidableEq, Repr

namespace Encoding

/-- Decodes bytes, the first of which stands at position `pos`. Besides the characters it gives
the unfinished end, which is an error if these bytes are `final`. -/
def decode (e : Encoding) (final : Bool) (pos : Nat) :
    List UInt8 → Except DecodingError (Text × List UInt8)
  | [] => .ok ([], [])
  | b :: rest =>
    match e.scan b rest with
    | .char c extra =>
      match decode e final (pos + 1 + extra) (rest.drop extra) with
      | .ok (cs, kept) => .ok (c :: cs, kept)
      | .error err => .error err
    | .malformed extra reason => .error ⟨e, pos, b :: rest.take extra, reason⟩
    | .incomplete extra reason =>
      if final then .error ⟨e, pos, b :: rest.take extra, reason⟩ else .ok ([], b :: rest)
termination_by bytes => bytes.length
decreasing_by simp only [List.length_drop, List.length_cons]; omega

/-- The text that bytes stand for as a whole. -/
def decodeAll (e : Encoding) (bytes : List UInt8) : Except DecodingError Text :=
  match e.decode true 0 bytes with
  | .ok (cs, _) => .ok cs
  | .error err => .error err

/-- The bytes of a text. Characters that the encoding does not have are left out; none of them can
come from decoding in the same encoding. -/
def encode (e : Encoding) (t : Text) : List UInt8 :=
  t.flatMap fun c => (e.encodeChar? c).getD []

theorem length_decode {e : Encoding} {final : Bool} {pos : Nat} {bytes kept : List UInt8}
    {cs : Text} (h : e.decode final pos bytes = .ok (cs, kept)) :
    cs.length + kept.length ≤ bytes.length := by
  fun_induction decode e final pos bytes generalizing cs kept with
  | case1 => cases h; simp
  | case2 pos b rest c extra _ cs' kept' hd ih =>
    cases h
    have := ih hd
    simp only [List.length_drop, List.length_cons] at this ⊢
    omega
  | case3 => cases h
  | case4 => cases h
  | case5 => cases h
  | case6 => cases h; simp

end Encoding

/-- A decoder between two portions. -/
structure Decoder where
  /-- The encoding of the bytes. -/
  encoding : Encoding
  /-- The bytes of an unfinished character. -/
  kept : List UInt8 := []
  deriving DecidableEq, Repr

namespace Decoder

/-- Decodes the next portion; nothing comes after it if it is `final`. Positions in an error count
from the first of the kept bytes. -/
def feed (d : Decoder) (data : List UInt8) (final : Bool) : Except DecodingError (Text × Decoder) :=
  match d.encoding.decode final 0 (d.kept ++ data) with
  | .ok (cs, kept) => .ok (cs, { d with kept })
  | .error err => .error err

theorem length_feed {d d' : Decoder} {data : List UInt8} {final : Bool} {cs : Text}
    (h : d.feed data final = .ok (cs, d')) :
    cs.length + d'.kept.length ≤ d.kept.length + data.length := by
  unfold feed at h
  split at h
  · next hd =>
    cases h
    simpa using Encoding.length_decode hd
  · cases h

end Decoder

end DotFraming
