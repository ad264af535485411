import DotFraming.Decimal.Binary

/-!
# Decimals with a fixed number of places

* `fixed` : a floating-point number, correctly rounded from its exact value to a number of places.
-/

namespace DotFraming

/-- The decimal digits of `n`, with zeros in front up to `width`. -/
def padDigits (width n : Nat) : List Char :=
  let ds := Nat.toDigits 10 n
  List.replicate (width - ds.length) '0' ++ ds

/-- The sign in front of a number. -/
def signChars (negative : Bool) : List Char :=
  if negative then ['-'] else []

/-- The text of `n / 10 ^ places`, for at least one place. -/
def pointDigits (places n : Nat) : List Char :=
  let unit := Nat.pow 10 places
  Nat.toDigits 10 (n / unit) ++ '.' :: padDigits places (n % unit)

/-- A number with the given number of decimal places, rounded to nearest with a half going to the
even neighbour. The sign stays when the digits are all zero. -/
def fixed (places : Nat) : Binary → List Char
  | .nan => ['n', 'a', 'n']
  | .infinite negative => signChars negative ++ ['i', 'n', 'f']
  | .finite negative mantissa exponent =>
    let (num, den) := powerFraction 2 exponent
    signChars negative ++ pointDigits places (roundDiv (mantissa * num * Nat.pow 10 places) den)

end DotFraming
