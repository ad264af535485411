/-!
# Binary floating-point numbers taken apart

* `Binary` : what the 64 bits of a floating-point number mean.
* `Binary.ofBits`, `Binary.ofFloat` : the meaning of given bits, and of a number.
* `roundDiv` : a quotient rounded to the nearest integer, a half going to the even neighbour.
-/

namespace DotFraming

/-- The meaning of the 64 bits of a floating-point number. -/
inductive Binary where
  /-- No number. -/
  | nan
  /-- Infinity, with its sign. -/
  | infinite (negative : Bool)
  /-- The number `mantissa * 2 ^ exponent`, with its sign. -/
  | finite (negative : Bool) (mantissa : Nat) (exponent : Int)
  deriving DecidableEq, Repr

namespace Binary

/-- The weight of a mantissa's leading bit, which stands in front of 52 bits of fraction. -/
def leadingBit : Nat := 1 <<< 52

/-- The meaning of 64 bits: the sign, eleven bits of exponent, and 52 bits of fraction. The
leading bit of the mantissa is not stored; it is there unless the exponent is the lowest one. -/
def ofBits (bits : UInt64) : Binary :=
  let n := bits.toNat
  let negative := n >>> 63 = 1
  let exponent : Nat := (n >>> 52) % 2048
  let fraction : Nat := n % leadingBit
  if exponent = 2047 then
    if fraction = 0 then infinite negative else nan
  else if exponent = 0 then finite negative fraction (-1074)
  else finite negative (leadingBit + fraction) ((exponent : Int) - 1075)

/-- The meaning of a floating-point number. -/
def ofFloat (x : Float) : Binary := ofBits x.toBits

end Binary

/-- The quotient `num / den` rounded to the nearest integer; a half goes to the even neighbour. -/
def roundDiv (num den : Nat) : Nat :=
  let q := num / den
  let r := 2 * (num % den)
  if r < den then q
  else if den < r then q + 1
  else if q % 2 = 0 then q else q + 1

/-- The power `base ^ exponent` as a fraction, numerator first. -/
def powerFraction (base : Nat) (exponent : Int) : Nat × Nat :=
  match exponent with
  | .ofNat n => (Nat.pow base n, 1)
  | .negSucc n => (1, Nat.pow base (n + 1))

end DotFraming
