import Flowchart.Number.Shortest

/-!
# `Flowchart.Number.Written`: the numeral of a double

A double is written with the fewest digits that read back. The numeral is
positional while the first digit stands at a place from `10 ^ -4` up to
below `10 ^ 16`, and always has a digit after the point. Beyond that it has
one digit before the point and an exponent with a sign and at least two
digits.
-/

set_option autoImplicit false

namespace Flowchart.Number

/-- A positional numeral whose point stands behind `whole` digits. -/
def positional (digits : List Char) (whole : Int) : List Char :=
  if whole ≤ 0 then '0' :: '.' :: List.replicate (-whole).toNat '0' ++ digits
  else
    let padded := digits ++ List.replicate (whole.toNat - digits.length) '0'
    let fraction := padded.drop whole.toNat
    padded.take whole.toNat ++ '.' :: if fraction.isEmpty then ['0'] else fraction

/-- The exponent of a numeral, with its mark, its sign and two digits or more. -/
def exponentMark (exponent : Int) : List Char :=
  let digits := Nat.toDigits 10 exponent.natAbs
  'e' :: (if exponent < 0 then '-' else '+') :: List.replicate (2 - digits.length) '0' ++ digits

/-- A numeral with one digit before the point and an exponent. -/
def scientific (digits : List Char) (exponent : Int) : List Char :=
  match digits with
  | first :: second :: rest => first :: '.' :: second :: rest ++ exponentMark exponent
  | digits => digits ++ exponentMark exponent

/-- The numeral of a positive double. -/
def numeral (mantissa : Nat) (exponent : Int) : List Char :=
  if mantissa = 0 then ['0', '.', '0']
  else
    let (digits, first) := shortest mantissa exponent
    if -4 ≤ first && first < 16 then positional digits (first + 1) else scientific digits first

/-- The numeral of a finite double, with its sign. -/
def signedNumeral (negative : Bool) (mantissa : Nat) (exponent : Int) : String :=
  let digits := numeral mantissa exponent
  String.ofList (if negative then '-' :: digits else digits)

end Flowchart.Number
