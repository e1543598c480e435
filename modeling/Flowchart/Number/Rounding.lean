/-!
# `Flowchart.Number.Rounding`: quotients, doubles and decimals

A finite double is a whole number of at most 53 bits times a power of two.
This module takes a double apart into those two, and goes the other way:
`nearest` is the double closest to a quotient of whole numbers, a tie going
to the even neighbour. Decimal numerals and large integers reach a double
through it, so nothing is rounded twice.

- `nearestBits`, `nearest`: the double nearest to a quotient.
-/

set_option autoImplicit false

namespace Flowchart.Number

/-- A power of two. -/
def twoPow (n : Nat) : Nat :=
  1 <<< n

/-- A power of ten. -/
def tenPow (n : Nat) : Nat :=
  Nat.pow 10 n

/-- What the 64 bits of a double stand for. -/
inductive Binary64 where
  | nan
  | infinite (negative : Bool)
  /-- The number `mantissa · 2 ^ exponent`, or its opposite. -/
  | finite (negative : Bool) (mantissa : Nat) (exponent : Int)
deriving DecidableEq, Repr

/-- Takes a double apart. -/
def Binary64.ofFloat (x : Float) : Binary64 :=
  let bits := x.toBits.toNat
  let negative := bits / twoPow 63 == 1
  let exponent : Nat := bits / twoPow 52 % 2048
  let fraction := bits % twoPow 52
  if exponent == 2047 then
    if fraction == 0 then .infinite negative else .nan
  else if exponent == 0 then .finite negative fraction (-1074)
  else .finite negative (fraction + twoPow 52) ((exponent : Int) - 1075)

/-- The whole number with the given sign and size. -/
def signed (negative : Bool) (size : Nat) : Int :=
  if negative then -(size : Int) else size

/-- The whole part of a finite double, rounded toward zero. -/
def truncate (negative : Bool) (mantissa : Nat) (exponent : Int) : Int :=
  signed negative (mantissa * twoPow exponent.toNat / twoPow (-exponent).toNat)

/-- How a whole number compares with a finite double, exactly. -/
def compareFinite (n : Int) (negative : Bool) (mantissa : Nat) (exponent : Int) : Ordering :=
  compare (n * twoPow (-exponent).toNat) (signed negative (mantissa * twoPow exponent.toNat))

/-- The whole number nearest to a quotient; a half goes to the even neighbour. -/
def roundHalfEven (num den : Nat) : Nat :=
  let q := num / den
  let twice := 2 * (num % den)
  if twice > den || (twice == den && q % 2 == 1) then q + 1 else q

/-- A quotient divided by a power of two, as numerator and denominator. -/
def scaleDown (exponent : Int) (num den : Nat) : Nat × Nat :=
  (num * twoPow (-exponent).toNat, den * twoPow exponent.toNat)

/-- The exponent at which the quotient has a mantissa of 53 bits, or the
least exponent of a double. -/
def mantissaExponent (num den : Nat) : Int :=
  let guess := (num.log2 : Int) - den.log2 - 52
  let (n, d) := scaleDown guess num den
  max (if n / d < twoPow 52 then guess - 1 else guess) (-1074)

/-- The bits of positive infinity. -/
def infinityBits : Nat := 0x7FF0000000000000

/-- The bits of the double nearest to `num / den`. A quotient too large for any
double has those of infinity. Of two such doubles the greater one has the
greater bits. -/
def nearestBits (num den : Nat) : Nat :=
  if num = 0 then 0
  else
    let exponent := mantissaExponent num den
    let (n, d) := scaleDown exponent num den
    min ((exponent + 1074).toNat * twoPow 52 + roundHalfEven n d) infinityBits

/-- The double nearest to `num / den` with the given sign. A quotient too
large for any double becomes infinite. -/
def nearest (negative : Bool) (num den : Nat) : Float :=
  Float.ofBits (UInt64.ofNat (nearestBits num den + if negative then twoPow 63 else 0))

/-- How many decimal digits a number has. -/
def digitCount (n : Nat) : Nat :=
  (Nat.toDigits 10 n).length

/-- The double nearest to `coefficient · 10 ^ exponent` with the given sign.
Exponents far outside the range of a double are settled by size alone. -/
def nearestDecimal (negative : Bool) (coefficient : Nat) (exponent : Int) : Float :=
  let magnitude := digitCount coefficient + exponent
  if coefficient = 0 || magnitude < -330 then nearest negative 0 1
  else if magnitude > 310 then nearest negative (twoPow 1024) 1
  else nearest negative (coefficient * tenPow exponent.toNat) (tenPow (-exponent).toNat)

end Flowchart.Number
