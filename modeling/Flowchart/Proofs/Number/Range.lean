import Mathlib.Tactic.Ring
import Flowchart.Number.Scalar
import Flowchart.Proofs.Except
import Flowchart.Proofs.Number.Nearest

/-!
# `Flowchart.Proofs.Number.Range`: whole numbers in the range of doubles

A whole number that meets a double becomes a double itself, and so does a
quotient. Both are refused where the double would be infinite. Below
`doubleRange` it never is: the bits of the nearest double then have an exponent below the one
of infinity, and a double keeps its bits but for those of a NaN.

* `isInf_ofBits`: bits with a lower exponent are those of no infinity;
* `isInf_nearest`: the double nearest to a quotient in range;
* `roundInt_succeeds`: a whole number in range becomes a double.
-/

set_option autoImplicit false

open Float.Model (Format)
open Float.Model.UnpackedFloat

namespace Flowchart.Number

/-! ### Bits -/

/-- The exponent in the bits of a double. -/
def exponentField (bits : BitVec Format.binary64.numBits) : Nat :=
  (unpackExponent bits).toNat

/-- The exponent is written in eleven bits behind the mantissa. -/
theorem exponentField_eq (bits : BitVec Format.binary64.numBits) :
    exponentField bits = bits.toNat / 2 ^ 52 % 2048 := by
  simp [exponentField, unpackExponent, BitVec.extractLsb, Nat.shiftRight_eq_div_pow]

/-- An exponent that is not all ones is told from that of infinity. -/
theorem unpackExponent_ne {bits : BitVec Format.binary64.numBits} (h : exponentField bits < 2047) :
    unpackExponent bits ≠ -1#_ := by
  intro heq
  rw [exponentField, heq] at h
  exact absurd h (by decide)

/-- The exponent that was packed is the one that stands in the field. -/
theorem exponentField_packComponents {sign exponent mantissa} :
    exponentField (packComponents Format.binary64 sign exponent mantissa) = exponent.toNat := by
  rw [exponentField, unpackExponent_packComponents]

/-- A finite number with an exponent in range is packed into a field that is not
all ones. -/
theorem exponentField_pack_lt {sign mantissa} {exponent : Int} {hpos : 0 < mantissa}
    (h : exponent + 1075 < 2047) :
    exponentField (pack Format.binary64 (.finite sign mantissa exponent hpos)) < 2047 := by
  have hbias : exponent + (Format.binary64.exponentBias : Int) +
      (Format.binary64.mantissaBitsWithoutImplicit : Int) = exponent + 1075 := by
    have hvalue : (Format.binary64.exponentBias : Int) = 1023 := by decide
    rw [hvalue]
    ring
  delta pack
  dsimp only
  rw [hbias, if_neg (by simp; omega)]
  -- A mantissa without its leading bit is packed with the exponent 0.
  split
  · rw [exponentField_packComponents, BitVec.toNat_ofNat]
    simp
    omega
  · rw [exponentField_packComponents]
    decide

/-- Bits whose exponent is not all ones are taken apart into what is no infinity,
and what is put together of that has such an exponent again. -/
theorem unpack_inRange {bits : BitVec Format.binary64.numBits} (h : exponentField bits < 2047) :
    (unpack Format.binary64 bits).isInf = false ∧
      exponentField (pack Format.binary64 (unpack Format.binary64 bits)) < 2047 := by
  have hbias : (Format.binary64.exponentBias : Int) +
      (Format.binary64.mantissaBitsWithoutImplicit : Int) = 1075 := by
    decide
  have hlt : (unpackExponent bits).toNat < 2047 := h
  unfold unpack
  dsimp only
  rw [if_neg (unpackExponent_ne h), hbias]
  -- A zero, a subnormal number and a normal one are each put together in their own way.
  by_cases hleast : unpackExponent bits = 0#_
  · rw [if_pos hleast]
    by_cases hzero : unpackMantissa bits = 0#_
    · rw [dif_pos hzero]
      refine ⟨rfl, ?_⟩
      change exponentField (packedZero Format.binary64 _) < 2047
      rw [packedZero, exponentField_packComponents]
      decide
    · rw [dif_neg hzero]
      refine ⟨rfl, exponentField_pack_lt ?_⟩
      rw [hleast]
      decide
  · rw [if_neg hleast]
    refine ⟨rfl, exponentField_pack_lt ?_⟩
    omega

/-- Bits whose exponent is not all ones are not those of infinity. -/
theorem isInf_ofBits {bits : UInt64} (h : exponentField bits.toBitVec < 2047) :
    (Float.ofBits bits).isInf = false := by
  show (unpack _ _).isInf = false
  exact (unpack_inRange (unpack_inRange h).2).1

/-- A size below that of infinity is that of no infinity, with either sign. -/
theorem isInf_ofBits_size {size : Nat} (negative : Bool) (h : size < infinityBits) :
    (Float.ofBits (UInt64.ofNat (size + if negative then twoPow 63 else 0))).isInf = false := by
  refine isInf_ofBits ?_
  have hsize : size < 2047 * 2 ^ 52 := h
  have hsign : twoPow 63 = 2 ^ 63 := rfl
  rw [exponentField_eq, UInt64.toNat_toBitVec, UInt64.toNat_ofNat']
  cases negative
  · simp only [Bool.false_eq_true, if_false]
    omega
  · simp only [if_true, hsign]
    omega

/-! ### Rounding -/

/-- Whole numbers below this one are in the range of doubles, and so are their
sums and products that are below it. -/
def doubleRange : Nat := twoPow 1023

/-- The double nearest to a quotient of a number in range is not infinite. -/
theorem isInf_nearest (negative : Bool) {num den : Nat} (hnum : num < doubleRange)
    (hden : 0 < den) : (nearest negative num den).isInf = false := by
  refine isInf_ofBits_size negative (nearestBits_lt_infinity hden ?_)
  have hle : num / (den : Rat) ≤ num := div_le_self (Nat.cast_nonneg _) (by exact_mod_cast hden)
  have hlt : (num : Rat) < (doubleRange : Nat) := Nat.cast_lt.2 hnum
  rw [doubleRange, cast_twoPow] at hlt
  exact hle.trans_lt hlt

namespace Scalar

/-- A whole number in the range of doubles can be rounded to one. -/
theorem roundInt_succeeds {n : Int} (h : n.natAbs < doubleRange) : Succeeds (roundInt n) := by
  simp only [roundInt, isInf_nearest _ h Nat.one_pos]
  exact ⟨_, rfl⟩

end Scalar

end Flowchart.Number
