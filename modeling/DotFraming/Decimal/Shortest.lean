import DotFraming.Decimal.Fixed

/-!
# The shortest decimal that reads back

Among the decimals that round to a given floating-point number, the one with the fewest digits is
chosen, and of several the nearest.

* `Rounding` : the numbers that round to a given one, as an interval.
* `shortestDecimal` : the digits and the power of ten.
* `Layout`, `Layout.text` : where positional notation ends and how the exponent is written.
-/

namespace DotFraming

/-- The reals that round to one floating-point number: from `lo` to `hi` around `value`, in units
of `2 ^ exponent`. -/
structure Rounding where
  /-- The lower end. -/
  lo : Nat
  /-- The number itself. -/
  value : Nat
  /-- The upper end. -/
  hi : Nat
  /-- The ends round to the number as well. -/
  closed : Bool
  /-- The unit is `2 ^ exponent`. -/
  exponent : Int

namespace Rounding

/-- The interval of `mantissa * 2 ^ exponent`, in quarters of its last place. The next number below
a power of two is only half as far away, unless the exponent is the lowest one. -/
def ofBinary (mantissa : Nat) (exponent : Int) : Rounding where
  lo :=
    if mantissa = Binary.leadingBit ∧ exponent ≠ -1074 then 4 * mantissa - 1 else 4 * mantissa - 2
  value := 4 * mantissa
  hi := 4 * mantissa + 2
  closed := mantissa % 2 = 0
  exponent := exponent - 2

/-- Whether `n * 10 ^ power` lies in the interval. -/
def holds (r : Rounding) (n : Nat) (power : Int) : Bool :=
  let (un, ud) := powerFraction 2 r.exponent
  let (tn, td) := powerFraction 10 power
  let x := n * tn * ud
  let lo := r.lo * un * td
  let hi := r.hi * un * td
  if r.closed then lo ≤ x && x ≤ hi else lo < x && x < hi

/-- The integer `n` with `n * 10 ^ power` at the number or next below it. -/
def below (r : Rounding) (power : Int) : Nat :=
  let (un, ud) := powerFraction 2 r.exponent
  let (tn, td) := powerFraction 10 power
  (r.value * un * td) / (tn * ud)

/-- The integer `n` with `n * 10 ^ power` nearest to the number, a tie going to the even one. -/
def nearest (r : Rounding) (power : Int) : Nat :=
  let (un, ud) := powerFraction 2 r.exponent
  let (tn, td) := powerFraction 10 power
  roundDiv (r.value * un * td) (tn * ud)

/-- The power of ten of the number's first decimal digit. -/
def firstPower (r : Rounding) : Int :=
  let (un, ud) := powerFraction 2 r.exponent
  let num := r.value * un
  let power : Int := (Nat.toDigits 10 num).length - (Nat.toDigits 10 ud).length
  let (tn, td) := powerFraction 10 power
  if num * td < tn * ud then power - 1 else power

/-- A multiple of `10 ^ power` in the interval, if one of the number's two neighbours on that grid
lies there; of both, the nearer. -/
def onGrid? (r : Rounding) (power : Int) : Option Nat :=
  let n := r.below power
  match r.holds n power, r.holds (n + 1) power with
  | true, true => some (r.nearest power)
  | true, false => some n
  | false, true => some (n + 1)
  | false, false => none

/-- Tries the grids of `digits`, `digits + 1`, … significant digits, `tries` of them. -/
def search (r : Rounding) (first : Int) : Nat → Nat → Nat × Int
  | 0, digits => (r.below (first - digits), first - digits)
  | tries + 1, digits =>
    match r.onGrid? (first - digits) with
    | some n => (n, first - digits)
    | none => search r first tries (digits + 1)

end Rounding

/-- The shortest decimal `n * 10 ^ power` that rounds to `mantissa * 2 ^ exponent`. Seventeen
digits always suffice. -/
def shortestDecimal (mantissa : Nat) (exponent : Int) : Nat × Int :=
  let r := Rounding.ofBinary mantissa exponent
  r.search r.firstPower 17 0

/-- How a decimal is laid out. -/
structure Layout where
  /-- The lowest power of the first digit that is written positionally. -/
  lowest : Int
  /-- The lowest power of the first digit from there on that is written with an exponent. -/
  highest : Int
  /-- The least number of digits of an exponent. -/
  exponentDigits : Nat

namespace Layout

/-- A decimal without the zeros at its end. -/
def stripZeros (ds : List Char) : List Char :=
  (ds.reverse.dropWhile (· == '0')).reverse

/-- The digits `ds`, the first of which stands for the power `first`, in positional notation with
at least one digit on either side of the point. -/
def positional (ds : List Char) (first : Int) : List Char :=
  match first with
  | .ofNat n =>
    let whole := ds.take (n + 1)
    let rest := ds.drop (n + 1)
    whole ++ List.replicate (n + 1 - whole.length) '0' ++ '.' :: (if rest = [] then ['0'] else rest)
  | .negSucc n => '0' :: '.' :: List.replicate n '0' ++ ds

/-- The digits `ds`, the first of which stands for the power `first`, with an exponent. -/
def scientific (exponentDigits : Nat) (ds : List Char) (first : Int) : List Char :=
  let mantissa := match ds with
    | [] => ['0']
    | [d] => [d]
    | d :: rest => d :: '.' :: rest
  mantissa ++ 'e' :: (if first < 0 then '-' else '+') :: padDigits exponentDigits first.natAbs

/-- The decimal `n * 10 ^ power`. -/
def decimal (l : Layout) (n : Nat) (power : Int) : List Char :=
  let all := Nat.toDigits 10 n
  let first : Int := all.length - 1 + power
  let ds := stripZeros all
  if l.lowest ≤ first ∧ first < l.highest then positional ds first
  else scientific l.exponentDigits ds first

/-- The shortest text that reads back as the number. -/
def text (l : Layout) : Binary → List Char
  | .nan => ['n', 'a', 'n']
  | .infinite negative => signChars negative ++ ['i', 'n', 'f']
  | .finite negative 0 _ => signChars negative ++ ['0', '.', '0']
  | .finite negative mantissa exponent =>
    let (n, power) := shortestDecimal mantissa exponent
    signChars negative ++ l.decimal n power

end Layout

end DotFraming
