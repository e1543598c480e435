import Mathlib.Data.Nat.Digits.Defs
import Flowchart.Proofs.Number.Nearest

/-!
# `Flowchart.Proofs.Number.Decimal`: the double nearest to a decimal

The exponent of a decimal can be so great that its power of ten is out of reach.
Then the count of digits settles the double, without that power. A decimal that
has its first digit far behind the point is less than half of the least double,
and one with far more than three hundred digits in front of the point is greater
than all doubles. So the shortcut changes nothing.

* `tenPow_le_of_digitCount`, `lt_tenPow_digitCount`: a number lies between two
  powers of ten that its digits tell;
* `nearestBits_of_tiny`, `nearestBits_of_huge`: quotients out of the range of a
  double;
* `nearestDecimal_eq`: a decimal is rounded like a quotient.
-/

set_option autoImplicit false

namespace Flowchart.Number

/-! ### Powers of ten -/

/-- A power of ten is not zero. -/
theorem tenPow_pos (n : Nat) : 0 < tenPow n :=
  Nat.pow_pos (by decide)

/-- Powers of ten are multiplied by putting their zeros together. -/
theorem tenPow_add (m n : Nat) : tenPow (m + n) = tenPow m * tenPow n :=
  Nat.pow_add 10 m n

/-- A power of ten with more zeros is greater. -/
theorem tenPow_le {m n : Nat} (h : m ≤ n) : tenPow m ≤ tenPow n :=
  Nat.pow_le_pow_right (by decide) h

/-- A number is less than the power of ten with as many zeros as it has digits. -/
theorem lt_tenPow_digitCount (n : Nat) : n < tenPow (digitCount n) :=
  (Nat.length_toDigits_le_iff (by decide) Nat.length_toDigits_pos).1 le_rfl

/-- A number is not less than a power of ten with no more digits. -/
theorem tenPow_le_of_digitCount {n k : Nat} (hn : 0 < n) (h : k < digitCount n) :
    tenPow k ≤ n := by
  rcases Nat.eq_zero_or_pos k with rfl | hk
  · exact hn
  · exact not_lt.1 (mt (Nat.length_toDigits_le_iff (by decide) hk).2 h.not_ge)

/-! ### Out of range -/

/-- A quotient less than half of the least double is rounded to zero. -/
theorem nearestBits_of_tiny {num den : Nat} (hden : 0 < den) (h : num * tenPow 330 ≤ den) :
    nearestBits num den = 0 := by
  have hmono : nearestBits num den ≤ nearestBits 1 (tenPow 330) :=
    nearestBits_mono hden (tenPow_pos 330) (by rwa [one_mul])
  have hzero : nearestBits 1 (tenPow 330) = 0 := by decide +kernel
  omega

/-- A quotient greater than all doubles is rounded to infinity. -/
theorem nearestBits_of_huge {num den : Nat} (hden : 0 < den) (h : tenPow 310 * den ≤ num) :
    nearestBits num den = nearestBits (twoPow 1024) 1 := by
  have hpow : twoPow 1024 ≤ tenPow 310 := by decide +kernel
  have hmono : nearestBits (twoPow 1024) 1 ≤ nearestBits num den :=
    nearestBits_mono one_pos hden <| by
      rw [mul_one]
      exact (Nat.mul_le_mul_right den hpow).trans h
  have htop : nearestBits (twoPow 1024) 1 = infinityBits := by decide +kernel
  have hle : nearestBits num den ≤ infinityBits := by
    unfold nearestBits
    split
    · exact Nat.zero_le _
    · exact min_le_right _ _
  omega

/-! ### Decimals -/

/-- A decimal is rounded to the double nearest to it, also where the count of its
digits settles to which one. -/
theorem nearestDecimal_eq (negative : Bool) (coefficient : Nat) (exponent : Int) :
    nearestDecimal negative coefficient exponent =
      nearest negative (coefficient * tenPow exponent.toNat) (tenPow (-exponent).toNat) := by
  rcases Nat.eq_zero_or_pos coefficient with rfl | hcoefficient
  · simp [nearestDecimal, nearest, nearestBits]
  have hden := tenPow_pos (-exponent).toNat
  unfold nearestDecimal
  simp only [hcoefficient.ne', decide_false, Bool.false_or]
  split
  · rename_i htiny
    rw [decide_eq_true_eq] at htiny
    -- The exponent is negative, and too great for the digits.
    have hbelow : coefficient * tenPow exponent.toNat * tenPow 330 ≤ tenPow (-exponent).toNat :=
      calc coefficient * tenPow exponent.toNat * tenPow 330
          = coefficient * tenPow 330 := by
            rw [show exponent.toNat = 0 by omega, show tenPow 0 = 1 from rfl, mul_one]
        _ ≤ tenPow (digitCount coefficient) * tenPow 330 :=
            Nat.mul_le_mul_right _ (lt_tenPow_digitCount coefficient).le
        _ = tenPow (digitCount coefficient + 330) := (tenPow_add _ _).symm
        _ ≤ tenPow (-exponent).toNat := tenPow_le (by omega)
    rw [nearest, nearest, nearestBits_of_tiny hden hbelow, nearestBits_zero]
  · split
    -- The first digit alone makes the number too great.
    · have hdigits : 0 < digitCount coefficient := Nat.length_toDigits_pos
      have habove : tenPow 310 * tenPow (-exponent).toNat ≤ coefficient * tenPow exponent.toNat :=
        calc tenPow 310 * tenPow (-exponent).toNat
            = tenPow (310 + (-exponent).toNat) := (tenPow_add _ _).symm
          _ ≤ tenPow (digitCount coefficient - 1 + exponent.toNat) := tenPow_le (by omega)
          _ = tenPow (digitCount coefficient - 1) * tenPow exponent.toNat := tenPow_add _ _
          _ ≤ coefficient * tenPow exponent.toNat :=
              Nat.mul_le_mul_right _ (tenPow_le_of_digitCount hcoefficient (by omega))
      rw [nearest, nearest, nearestBits_of_huge hden habove]
    · rfl

/-- Half of the least double is rounded to zero, and anything more is not. -/
example : nearestBits 1 (twoPow 1075) = 0 ∧ nearestBits 3 (twoPow 1076) = 1 := by
  decide +kernel

end Flowchart.Number
