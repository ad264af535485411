import DotFraming.Encoding

/-!
# One character from a sequence of bytes

`Encoding.scan` looks at the bytes in front and says what they are: a character, something that no
continuation can make valid, or the beginning of a character whose end has not been seen.

* `Reason` : what is wrong with bytes that cannot be decoded.
* `Scan` : the three outcomes.
* `Utf8`, `Utf16` : the two variable-length formats.
* `Encoding.encodeChar?` : the bytes of a character, the other direction.
-/

namespace DotFraming

/-- Why bytes cannot be decoded. -/
inductive Reason where
  /-- A byte from 128 on in ASCII. -/
  | outsideAscii
  /-- A byte that begins no UTF-8 sequence. -/
  | invalidStart
  /-- A byte that cannot continue the UTF-8 sequence it stands in. -/
  | invalidContinuation
  /-- The input ended inside a character. -/
  | unexpectedEnd
  /-- The input ended inside a UTF-16 unit. -/
  | truncated
  /-- A low surrogate that no high surrogate precedes. -/
  | loneLowSurrogate
  /-- A high surrogate that no low surrogate follows. -/
  | loneHighSurrogate
  deriving DecidableEq, Repr

/-- The wording of a reason. -/
def Reason.text : Reason → String
  | outsideAscii => "ordinal not in range(128)"
  | invalidStart => "invalid start byte"
  | invalidContinuation => "invalid continuation byte"
  | unexpectedEnd => "unexpected end of data"
  | truncated => "truncated data"
  | loneLowSurrogate => "illegal encoding"
  | loneHighSurrogate => "illegal UTF-16 surrogate"

/-- What the bytes in front are. `extra` counts the bytes after the first that belong to it. -/
inductive Scan where
  /-- A character. -/
  | char (c : Char) (extra : Nat)
  /-- Bytes that no continuation can make valid. -/
  | malformed (extra : Nat) (reason : Reason)
  /-- Bytes to which more may come. If nothing follows, `extra` and `reason` say what is wrong. -/
  | incomplete (extra : Nat) (reason : Reason)
  deriving DecidableEq, Repr

namespace Utf8

/-- The ranges in which the bytes after the first byte `b` of a character lie, none if `b` begins
no character. The second byte is restricted where the code point would otherwise be written too
long, be a surrogate, or lie beyond U+10FFFF. -/
def follow (b : Nat) : Option (List (Nat × Nat)) :=
  if b < 0x80 then some []
  else if b < 0xC2 then none
  else if b < 0xE0 then some [(0x80, 0xBF)]
  else if b = 0xE0 then some [(0xA0, 0xBF), (0x80, 0xBF)]
  else if b = 0xED then some [(0x80, 0x9F), (0x80, 0xBF)]
  else if b < 0xF0 then some [(0x80, 0xBF), (0x80, 0xBF)]
  else if b = 0xF0 then some [(0x90, 0xBF), (0x80, 0xBF), (0x80, 0xBF)]
  else if b < 0xF4 then some [(0x80, 0xBF), (0x80, 0xBF), (0x80, 0xBF)]
  else if b = 0xF4 then some [(0x80, 0x8F), (0x80, 0xBF), (0x80, 0xBF)]
  else none

/-- The bits of the code point that the first byte `b` holds. -/
def leadBits (b : Nat) : Nat :=
  if b < 0x80 then b
  else if b < 0xE0 then b - 0xC0
  else if b < 0xF0 then b - 0xE0
  else b - 0xF0

/-- Reads the bytes that have to lie in `ranges`. `point` is the code point so far, `seen` the
number of bytes read after the first. -/
def scanRest (point seen : Nat) : List (Nat × Nat) → List UInt8 → Scan
  | [], _ => .char (Char.ofNat point) seen
  | _ :: _, [] => .incomplete seen .unexpectedEnd
  | (lo, hi) :: ranges, b :: rest =>
    if lo ≤ b.toNat && b.toNat ≤ hi then
      scanRest (point * 64 + (b.toNat - 0x80)) (seen + 1) ranges rest
    else .malformed seen .invalidContinuation

/-- Whether the bytes `b :: rest` are the first two of the three that a surrogate would take. -/
def isOpenSurrogate (b : UInt8) : List UInt8 → Bool
  | [b₁] => b == 0xED && 0xA0 ≤ b₁ && b₁ ≤ 0xBF
  | _ => false

/-- The character in front of the bytes `b :: rest`. A surrogate is malformed, but that is said only
when the third of its bytes has come or can no longer come. -/
def scan (b : UInt8) (rest : List UInt8) : Scan :=
  match follow b.toNat with
  | none => .malformed 0 .invalidStart
  | some ranges =>
    if isOpenSurrogate b rest then .incomplete 0 .invalidContinuation
    else scanRest (leadBits b.toNat) 0 ranges rest

end Utf8

namespace Utf16

/-- The unit made of two bytes, given in the order in which they come. -/
def unit (bigEndian : Bool) (first second : UInt8) : Nat :=
  if bigEndian then first.toNat * 256 + second.toNat else second.toNat * 256 + first.toNat

/-- The two bytes of a unit, in the order in which they come. -/
def unitBytes (bigEndian : Bool) (u : Nat) : List UInt8 :=
  if bigEndian then [UInt8.ofNat (u / 256), UInt8.ofNat (u % 256)]
  else [UInt8.ofNat (u % 256), UInt8.ofNat (u / 256)]

/-- Whether a unit is the first half of a pair. -/
def isHigh (u : Nat) : Bool := 0xD800 ≤ u && u < 0xDC00

/-- Whether a unit is the second half of a pair. -/
def isLow (u : Nat) : Bool := 0xDC00 ≤ u && u < 0xE000

/-- The character in front of the bytes `b :: rest`. -/
def scan (bigEndian : Bool) (b : UInt8) : List UInt8 → Scan
  | [] => .incomplete 0 .truncated
  | b₁ :: rest =>
    let u := unit bigEndian b b₁
    if isHigh u then
      match rest with
      | b₂ :: b₃ :: _ =>
        let v := unit bigEndian b₂ b₃
        if isLow v then .char (Char.ofNat (0x10000 + (u - 0xD800) * 1024 + (v - 0xDC00))) 3
        else .malformed 1 .loneHighSurrogate
      | _ => .incomplete (1 + rest.length) .unexpectedEnd
    else if isLow u then .malformed 1 .loneLowSurrogate
    else .char (Char.ofNat u) 1

/-- The bytes of a character: one unit, or a pair from U+10000 on. -/
def encodeChar (bigEndian : Bool) (c : Char) : List UInt8 :=
  if c.toNat < 0x10000 then unitBytes bigEndian c.toNat
  else
    unitBytes bigEndian (0xD800 + (c.toNat - 0x10000) / 1024) ++
      unitBytes bigEndian (0xDC00 + (c.toNat - 0x10000) % 1024)

end Utf16

namespace Encoding

/-- What the bytes `b :: rest` begin with. -/
def scan (e : Encoding) (b : UInt8) (rest : List UInt8) : Scan :=
  match e with
  | latin1 => .char (Char.ofNat b.toNat) 0
  | ascii => if b.toNat < 128 then .char (Char.ofNat b.toNat) 0 else .malformed 0 .outsideAscii
  | utf8 => Utf8.scan b rest
  | utf16le => Utf16.scan false b rest
  | utf16be => Utf16.scan true b rest

/-- The bytes of a character, if the encoding has it. -/
def encodeChar? (e : Encoding) (c : Char) : Option (List UInt8) :=
  match e with
  | latin1 => if c.toNat < 256 then some [UInt8.ofNat c.toNat] else none
  | ascii => if c.toNat < 128 then some [UInt8.ofNat c.toNat] else none
  | utf8 => some (String.utf8EncodeChar c)
  | utf16le => some (Utf16.encodeChar false c)
  | utf16be => some (Utf16.encodeChar true c)

end Encoding

end DotFraming
