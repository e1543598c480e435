import Flowchart.Number.Rounding

/-!
# `Flowchart.Number.Shortest`: the fewest digits that read back

The decimal numeral of a double has the fewest significant digits that
still read back as the same double, and among those of that length it is
the nearest one, the last digit being even in a tie. A numeral reads back
when it lies in the interval of numbers that round to the double; the ends
of the interval belong to it exactly when the mantissa is even.

For each count of digits the two neighbours of the double on that decimal
grid are tested in whole numbers, and the first count with a hit wins.
-/

set_option autoImplicit false

namespace Flowchart.Number

/-- The decimal exponent of the first significant digit of `num / den`. -/
def decimalExponent (num den : Nat) : Int :=
  if den ≤ num then (digitCount (num / den) : Int) - 1 else -(digitCount ((den - 1) / num) : Int)

/-- The numbers that round to a double, in quarters of its last place. -/
structure RoundingInterval where
  low : Nat
  value : Nat
  high : Nat
  closed : Bool
deriving Repr

/-- The rounding interval of `mantissa · 2 ^ exponent`. Below a power of two
the doubles lie twice as dense, so there the lower end is nearer. -/
def RoundingInterval.of (mantissa : Nat) (exponent : Int) : RoundingInterval :=
  let step := if mantissa == twoPow 52 && exponent > -1074 then 1 else 2
  ⟨4 * mantissa - step, 4 * mantissa, 4 * mantissa + 2, mantissa % 2 == 0⟩

/-- Whether a point lies in the interval. -/
def RoundingInterval.contains (interval : RoundingInterval) (point : Nat) : Bool :=
  if interval.closed then interval.low ≤ point && point ≤ interval.high
  else interval.low < point && point < interval.high

/-- The multiples of `grid` next to the value that lie in the interval: the
nearer one if both do, and of two equally near ones the even one.
Everything is counted in the same small unit. -/
def RoundingInterval.hit? (interval : RoundingInterval) (grid : Nat) : Option Nat :=
  let below := interval.value / grid
  let above := below + 1
  let lower := interval.contains (below * grid)
  let upper := interval.contains (above * grid)
  if lower && upper then
    let down := interval.value - below * grid
    let up := above * grid - interval.value
    some (if down < up || (down == up && below % 2 == 0) then below else above)
  else if lower then some below
  else if upper then some above
  else none

/-- The coefficient and exponent of the nearest numeral with `count` digits
that reads back as `mantissa · 2 ^ exponent`, if there is one. -/
def numeralWith? (mantissa : Nat) (exponent : Int) (count : Nat) : Option (Nat × Int) :=
  let quarter := exponent - 2
  let twos := twoPow quarter.toNat
  let halves := twoPow (-quarter).toNat
  let power := decimalExponent (4 * mantissa * twos) halves - count + 1
  let tens := tenPow power.toNat
  let tenths := tenPow (-power).toNat
  let interval := RoundingInterval.of mantissa exponent
  let unit := twos * tenths
  let scaled : RoundingInterval :=
    { interval with
      low := interval.low * unit, value := interval.value * unit, high := interval.high * unit }
  (scaled.hit? (tens * halves)).map fun coefficient => (coefficient, power)

/-- The digits of the shortest numeral of a positive double, without the
zeros at the end, and the decimal exponent of the first digit. Seventeen
digits always suffice. -/
def shortest (mantissa : Nat) (exponent : Int) : List Char × Int :=
  match (List.range' 1 17).findSome? (numeralWith? mantissa exponent) with
  | some (coefficient, power) =>
    let digits := Nat.toDigits 10 coefficient
    ((digits.reverse.dropWhile (· == '0')).reverse, power + digits.length - 1)
  | none => ([], 0)

end Flowchart.Number
