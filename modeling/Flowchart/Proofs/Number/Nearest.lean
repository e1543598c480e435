import Mathlib.Algebra.Order.Field.Power
import Mathlib.Algebra.Order.Ring.Rat
import Mathlib.Data.Rat.Floor
import Mathlib.Tactic.Linarith
import Mathlib.Tactic.Positivity
import Mathlib.Tactic.Ring
import Flowchart.Number.Rounding

/-!
# `Flowchart.Proofs.Number.Nearest`: the double nearest to a quotient

A quotient is rounded to a multiple of a power of two, the least power at which
fewer than 2^53 multiples are needed. A quotient too small for a mantissa of 53
bits is rounded at the least exponent of a double instead.

The bits of a double that is not negative count such multiples through, from one
power of two to the next. So they are in the order of the numbers they stand for,
and rounding keeps the order of quotients: it can make two of them the same, but
never turn them around. How close two quotients have to be for that is said here
too. It takes numbers far larger than their difference is small.

* `value`: the number that bits stand for;
* `RoundsAt`, `roundsAt_mantissaExponent`: the power of two and the multiple that a
  quotient is rounded to;
* `abs_sub_value_nearestBits_le`: no double is nearer to a quotient;
* `nearestBits_mono`, `nearestBits_lt`: rounding and the order of quotients;
* `rounded`: the nearest double as a number.
-/

set_option autoImplicit false

namespace Flowchart.Number

/-! ### Powers of two -/

/-- A shift makes a power of two. -/
theorem twoPow_eq (n : Nat) : twoPow n = 2 ^ n :=
  Nat.one_shiftLeft n

/-- A power of two is one among fractions. -/
theorem cast_twoPow (n : Nat) : ((twoPow n : Nat) : Rat) = 2 ^ n := by
  rw [twoPow_eq, Nat.cast_pow, Nat.cast_ofNat]

/-- A power of two is not zero. -/
theorem twoPow_pos (n : Nat) : 0 < twoPow n := by
  rw [twoPow_eq]
  exact Nat.two_pow_pos n

/-- A power of two with a greater exponent is greater. -/
theorem twoPow_le {m n : Nat} (h : m ≤ n) : twoPow m ≤ twoPow n := by
  rw [twoPow_eq, twoPow_eq]
  exact Nat.pow_le_pow_right (by decide) h

/-! ### Scaling -/

/-- The scaled numbers have the quotient of the two, divided by the power of two. -/
theorem scaleDown_div (exponent : Int) (num den : Nat) :
    ((scaleDown exponent num den).1 : Rat) / (scaleDown exponent num den).2 =
      num / den / 2 ^ exponent := by
  obtain ⟨n, rfl | rfl⟩ := exponent.eq_nat_or_neg
  · simp [scaleDown, cast_twoPow, div_div, show twoPow 0 = 1 from rfl]
  · simp [scaleDown, cast_twoPow, show twoPow 0 = 1 from rfl, mul_div_right_comm]

/-- The second scaled number is not zero. -/
theorem scaleDown_pos {den : Nat} (h : 0 < den) (exponent : Int) (num : Nat) :
    0 < (scaleDown exponent num den).2 :=
  Nat.mul_pos h (twoPow_pos _)

/-- The numbers of bits say between which powers of two a quotient lies. -/
theorem log2_div {num den : Nat} (hnum : 0 < num) (hden : 0 < den) :
    (2 : Rat) ^ ((num.log2 : Int) - den.log2 - 1) < num / den ∧
      (num / den : Rat) < 2 ^ ((num.log2 : Int) - den.log2 + 1) := by
  have hden' : (0 : Rat) < den := by exact_mod_cast hden
  have hnumLow : (2 : Rat) ^ num.log2 ≤ num := by exact_mod_cast Nat.log2_self_le hnum.ne'
  have hnumHigh : (num : Rat) < 2 ^ (num.log2 + 1) := by exact_mod_cast Nat.lt_log2_self
  have hdenLow : (2 : Rat) ^ den.log2 ≤ den := by exact_mod_cast Nat.log2_self_le hden.ne'
  have hdenHigh : (den : Rat) < 2 ^ (den.log2 + 1) := by exact_mod_cast Nat.lt_log2_self
  have hlow : (2 : Rat) ^ ((num.log2 : Int) - den.log2 - 1) =
      2 ^ num.log2 / 2 ^ (den.log2 + 1) := by
    rw [← zpow_natCast, ← zpow_natCast, ← zpow_sub₀ two_ne_zero]
    congr 1
    push_cast
    ring
  have hhigh : (2 : Rat) ^ ((num.log2 : Int) - den.log2 + 1) =
      2 ^ (num.log2 + 1) / 2 ^ den.log2 := by
    rw [← zpow_natCast, ← zpow_natCast, ← zpow_sub₀ two_ne_zero]
    congr 1
    push_cast
    ring
  -- Both sides are quotients now, so numerators and denominators are compared on their own.
  rw [hlow, hhigh]
  constructor
  · exact div_lt_div₀' hnumLow hdenHigh (by positivity) hden'
  · exact div_lt_div₀ hnumHigh hdenLow (by positivity) (by positivity)

/-- One power of two more is twice as much. -/
theorem two_zpow_succ (exponent : Int) : (2 : Rat) ^ (exponent + 1) = 2 * 2 ^ exponent := by
  rw [zpow_add_one₀ two_ne_zero, mul_comm]

/-- A power of two is more than any lesser one. -/
theorem two_zpow_lt {e e' : Int} (h : e < e') : 2 * (2 : Rat) ^ e ≤ 2 ^ e' := by
  rw [← two_zpow_succ]
  exact zpow_le_zpow_right₀ one_le_two h

/-- The guess at the exponent of the mantissa leaves 52 or 53 bits. -/
theorem guess_spec {num den : Nat} (hnum : 0 < num) (hden : 0 < den) :
    2 ^ 51 * 2 ^ ((num.log2 : Int) - den.log2 - 52) < (num : Rat) / den ∧
      (num : Rat) / den < 2 ^ 53 * 2 ^ ((num.log2 : Int) - den.log2 - 52) := by
  obtain ⟨hlow, hhigh⟩ := log2_div hnum hden
  have hguess : (num.log2 : Int) - den.log2 - 1 = 51 + ((num.log2 : Int) - den.log2 - 52) := by
    ring
  have hguess' : (num.log2 : Int) - den.log2 + 1 = 53 + ((num.log2 : Int) - den.log2 - 52) := by
    ring
  rw [hguess, zpow_add₀ two_ne_zero] at hlow
  rw [hguess', zpow_add₀ two_ne_zero] at hhigh
  exact ⟨hlow, hhigh⟩

/-- Whether a scaled quotient has fewer than 53 bits shows in its whole part. -/
theorem scaleDown_lt_iff {den : Nat} (hden : 0 < den) (exponent : Int) (num : Nat) :
    (scaleDown exponent num den).1 / (scaleDown exponent num den).2 < twoPow 52 ↔
      (num : Rat) / den < 2 ^ 52 * 2 ^ exponent := by
  rw [Nat.div_lt_iff_lt_mul (scaleDown_pos hden exponent num),
    ← div_lt_iff₀ (by positivity : (0 : Rat) < 2 ^ exponent), ← scaleDown_div,
    div_lt_iff₀ (by exact_mod_cast scaleDown_pos hden exponent num)]
  exact_mod_cast Iff.rfl

/-- At the exponent of its mantissa a quotient has no more than 53 bits, and no
fewer unless that is the least exponent. -/
theorem mantissaExponent_spec {num den : Nat} (hnum : 0 < num) (hden : 0 < den) :
    -1074 ≤ mantissaExponent num den ∧
      (num : Rat) / den < 2 ^ 53 * 2 ^ mantissaExponent num den ∧
      (mantissaExponent num den = -1074 ∨
        2 ^ 52 * 2 ^ mantissaExponent num den ≤ (num : Rat) / den) := by
  obtain ⟨hlow, hhigh⟩ := guess_spec hnum hden
  unfold mantissaExponent
  dsimp only
  generalize (num.log2 : Int) - den.log2 - 52 = guess at hlow hhigh ⊢
  -- The guess is one too great if it leaves 52 bits only.
  have hmantissa : ∀ exponent, exponent = (if (scaleDown guess num den).1 /
      (scaleDown guess num den).2 < twoPow 52 then guess - 1 else guess) →
      (num : Rat) / den < 2 ^ 53 * 2 ^ exponent ∧ 2 ^ 52 * 2 ^ exponent ≤ (num : Rat) / den := by
    rintro _ rfl
    split
    · rename_i hlt
      have htwice : (2 : Rat) ^ guess = 2 * 2 ^ (guess - 1) := by
        rw [← two_zpow_succ, sub_add_cancel]
      have hlt' := (scaleDown_lt_iff hden guess num).1 hlt
      rw [htwice] at hlt' hlow
      norm_num at hlow hlt' ⊢
      constructor <;> linarith
    · rename_i hge
      have hge' := not_lt.1 (mt (scaleDown_lt_iff hden guess num).2 hge)
      norm_num at hhigh hge' ⊢
      constructor <;> linarith
  generalize (if (scaleDown guess num den).1 / (scaleDown guess num den).2 < twoPow 52 then
    guess - 1 else guess) = exponent at hmantissa ⊢
  obtain ⟨hlt, hle⟩ := hmantissa exponent rfl
  refine ⟨le_max_right _ _, hlt.trans_le ?_, ?_⟩
  · have hpow : (2 : Rat) ^ exponent ≤ 2 ^ max exponent (-1074) :=
      zpow_le_zpow_right₀ one_le_two (le_max_left _ _)
    linarith
  · rcases le_total exponent (-1074) with h | h
    · exact .inl (max_eq_right h)
    · exact .inr (by rwa [max_eq_left h])

/-! ### Rounding -/

/-- A quotient is rounded up if what is left over is a half at least, and down if it
is a half at most. -/
theorem roundHalfEven_cases (num den : Nat) :
    (roundHalfEven num den = num / den + 1 ∧ den ≤ 2 * (num % den)) ∨
      (roundHalfEven num den = num / den ∧ 2 * (num % den) ≤ den) := by
  unfold roundHalfEven
  simp only [gt_iff_lt, Bool.or_eq_true, decide_eq_true_eq, Bool.and_eq_true, beq_iff_eq]
  split <;> omega

/-- A quotient is rounded by a half at most. -/
theorem abs_sub_roundHalfEven_le (num : Nat) {den : Nat} (h : 0 < den) :
    |(num : Rat) / den - roundHalfEven num den| ≤ 1 / 2 := by
  have hden : (0 : Rat) < den := by exact_mod_cast h
  have hsplit : (num : Rat) / den = (num / den : Nat) + (num % den : Nat) / den := by
    rw [eq_comm, ← mul_right_inj' hden.ne', mul_add, mul_div_cancel₀ _ hden.ne',
      mul_div_cancel₀ _ hden.ne']
    exact_mod_cast Nat.div_add_mod num den
  rw [hsplit, abs_le]
  obtain ⟨hup, hge⟩ | ⟨hdown, hle⟩ := roundHalfEven_cases num den
  · have hge' : (den : Rat) ≤ 2 * (num % den : Nat) := by exact_mod_cast hge
    have hlt : ((num % den : Nat) : Rat) < den := by exact_mod_cast Nat.mod_lt num h
    have hhalf : (1 / 2 : Rat) ≤ (num % den : Nat) / den := by
      rw [le_div_iff₀ hden]
      linarith
    have hone : ((num % den : Nat) : Rat) / den < 1 := (div_lt_one hden).2 hlt
    rw [hup]
    push_cast at *
    constructor <;> linarith
  · have hle' : 2 * ((num % den : Nat) : Rat) ≤ den := by exact_mod_cast hle
    have hhalf : ((num % den : Nat) : Rat) / den ≤ 1 / 2 := by
      rw [div_le_iff₀ hden]
      linarith
    have hzero : (0 : Rat) ≤ (num % den : Nat) / den := by positivity
    rw [hdown]
    constructor <;> linarith

/-- The greater of two quotients is not rounded to the lesser number. -/
theorem roundHalfEven_mono {num den num' den' : Nat} (hden : 0 < den) (hden' : 0 < den')
    (h : num * den' ≤ num' * den) : roundHalfEven num den ≤ roundHalfEven num' den' := by
  have hquotients : num / den ≤ num' / den' := by
    rw [Nat.le_div_iff_mul_le hden']
    refine Nat.le_of_mul_le_mul_right ?_ hden
    calc num / den * den' * den = num / den * den * den' := by ring
      _ ≤ num * den' := Nat.mul_le_mul_right _ (Nat.div_mul_le_self num den)
      _ ≤ num' * den := h
  rcases Nat.lt_or_eq_of_le hquotients with hlt | heq
  · have hup := roundHalfEven_cases num den
    have hdown := roundHalfEven_cases num' den'
    omega
  -- With the same whole part, what is left over decides.
  · have hrest : num % den * den' ≤ num' % den' * den := by
      have hnum := Nat.div_add_mod num den
      have hnum' := Nat.div_add_mod num' den'
      rw [← hnum, ← hnum', ← heq, Nat.add_mul, Nat.add_mul] at h
      have hsame : den * (num / den) * den' = den' * (num / den) * den := by ring
      omega
    unfold roundHalfEven
    simp only [← heq, gt_iff_lt, Bool.or_eq_true, decide_eq_true_eq, Bool.and_eq_true, beq_iff_eq]
    split
    · rename_i hup
      rw [if_pos]
      rcases hup with hlt | ⟨hhalf, hodd⟩
      · refine .inl (Nat.lt_of_mul_lt_mul_right (a := den) ?_)
        calc den' * den = den * den' := Nat.mul_comm _ _
          _ < 2 * (num % den) * den' := Nat.mul_lt_mul_of_pos_right hlt hden'
          _ ≤ 2 * (num' % den') * den := by rw [Nat.mul_assoc, Nat.mul_assoc]; omega
      · have hle : den' ≤ 2 * (num' % den') := by
          refine Nat.le_of_mul_le_mul_right ?_ hden
          calc den' * den = 2 * (num % den) * den' := by rw [hhalf, Nat.mul_comm]
            _ ≤ 2 * (num' % den') * den := by rw [Nat.mul_assoc, Nat.mul_assoc]; omega
        exact (Nat.lt_or_eq_of_le hle).imp id fun heq => ⟨heq.symm, hodd⟩
    · split <;> omega

/-! ### The bits of doubles -/

/-- The number that the bits of a double stand for that is not negative. Bits that
are not those of a number continue the row. -/
def value (bits : Nat) : Rat :=
  if bits < 2 ^ 52 then bits * 2 ^ (-1074 : Int)
  else (bits % 2 ^ 52 + 2 ^ 52 : Nat) * 2 ^ ((bits / 2 ^ 52 : Nat) - 1075 : Int)

/-- Bits that are all zero stand for zero. -/
theorem value_zero : value 0 = 0 := by
  simp [value]

/-- The bits for a multiple of a power of two. -/
def encode (exponent : Int) (mantissa : Nat) : Nat :=
  (exponent + 1074).toNat * 2 ^ 52 + mantissa

/-- A number that a double has room for: it has no more than 53 bits, and no fewer
unless its exponent is the least. -/
structure Fits (exponent : Int) (mantissa : Nat) : Prop where
  least : -1074 ≤ exponent
  most : mantissa ≤ 2 ^ 53
  full : exponent = -1074 ∨ 2 ^ 52 ≤ mantissa

variable {exponent exponent' : Int} {mantissa mantissa' : Nat}

/-- The bits of a mantissa and an exponent stand for their product. -/
theorem value_encode (h : Fits exponent mantissa) :
    value (encode exponent mantissa) = mantissa * 2 ^ exponent := by
  obtain ⟨n, hn⟩ := Int.eq_ofNat_of_zero_le (show 0 ≤ exponent + 1074 by linarith [h.least])
  obtain rfl : exponent = n - 1074 := by omega
  have hfull : n = 0 ∨ 2 ^ 52 ≤ mantissa := h.full.imp_left fun h => by omega
  have hmost := h.most
  rw [encode, hn, Int.toNat_natCast, value]
  rcases Nat.lt_or_ge mantissa (2 ^ 52) with hlt | hge
  · obtain rfl : n = 0 := by omega
    rw [if_pos (by omega)]
    norm_num
  · rw [if_neg (by omega)]
    rcases Nat.lt_or_eq_of_le hmost with hlt | rfl
    · have hmod : (n * 2 ^ 52 + mantissa) % 2 ^ 52 + 2 ^ 52 = mantissa := by omega
      have hdiv : (n * 2 ^ 52 + mantissa) / 2 ^ 52 = n + 1 := by omega
      rw [hmod, hdiv]
      congr 2
      push_cast
      ring
    -- One more than fits is the first number at the next power of two.
    · have hmod : (n * 2 ^ 52 + 2 ^ 53) % 2 ^ 52 + 2 ^ 52 = 2 ^ 52 := by omega
      have hdiv : (n * 2 ^ 52 + 2 ^ 53) / 2 ^ 52 = n + 2 := by omega
      have hexponent : ((n + 2 : Nat) - 1075 : Int) = (n - 1074) + 1 := by
        push_cast
        ring
      rw [hmod, hdiv, hexponent, two_zpow_succ]
      push_cast
      ring

/-- Bits are those of a number with room for one more at its exponent. -/
theorem exists_encode (bits : Nat) : ∃ exponent mantissa,
    Fits exponent mantissa ∧ mantissa < 2 ^ 53 ∧ bits = encode exponent mantissa := by
  rcases Nat.lt_or_ge bits (2 ^ 52) with hlt | hge
  · refine ⟨-1074, bits, ⟨le_rfl, by omega, .inl rfl⟩, by omega, ?_⟩
    simp [encode]
  · refine ⟨(bits / 2 ^ 52 : Nat) - 1075, bits % 2 ^ 52 + 2 ^ 52,
      ⟨by omega, by omega, .inr (by omega)⟩,
      by omega, ?_⟩
    rw [encode]
    omega

/-- The next bits stand for a number that is greater by the power of two at least. -/
theorem add_le_value_succ (h : Fits exponent mantissa) :
    (mantissa + 1) * 2 ^ exponent ≤ value (encode exponent mantissa + 1) := by
  have hpos : (0 : Rat) < 2 ^ exponent := by positivity
  rcases Nat.lt_or_eq_of_le h.most with hlt | rfl
  · have hnext : Fits exponent (mantissa + 1) := ⟨h.least, hlt, h.full.imp_right Nat.le_succ_of_le⟩
    have hbits : encode exponent mantissa + 1 = encode exponent (mantissa + 1) := by
      rw [encode, encode, Nat.add_assoc]
    rw [hbits, value_encode hnext]
    push_cast
    exact le_refl _
  -- The greatest mantissa has no successor, so the next bits are of the next exponent.
  · have hnext : Fits (exponent + 1) (2 ^ 52 + 1) :=
      ⟨by linarith [h.least], by norm_num, .inr (Nat.le_succ _)⟩
    have hbits : encode exponent (2 ^ 53) + 1 = encode (exponent + 1) (2 ^ 52 + 1) := by
      have hleast := h.least
      rw [encode, encode]
      omega
    rw [hbits, value_encode hnext, two_zpow_succ]
    push_cast
    linarith

/-- Greater bits stand for a greater number. -/
theorem value_strictMono : StrictMono value := by
  refine strictMono_nat_of_lt_succ fun bits => ?_
  obtain ⟨exponent, mantissa, hfits, _, rfl⟩ := exists_encode bits
  have hnext := add_le_value_succ hfits
  have hpos : (0 : Rat) < 2 ^ exponent := by positivity
  rw [value_encode hfits]
  linarith

/-! ### The nearest double -/

/-- A number is rounded to a multiple of a power of two that a double has room for. -/
structure RoundsTo (q : Rat) (exponent : Int) (mantissa : Nat) : Prop extends
    Fits exponent mantissa where
  lt : q < 2 ^ 53 * 2 ^ exponent
  le : exponent = -1074 ∨ 2 ^ 52 * 2 ^ exponent ≤ q
  error : |q - mantissa * 2 ^ exponent| ≤ 2 ^ exponent / 2

variable {q q' : Rat}

/-- No double is nearer to a number than the one that it is rounded to. -/
theorem RoundsTo.nearest (h : RoundsTo q exponent mantissa) (bits : Nat) :
    |q - value (encode exponent mantissa)| ≤ |q - value bits| := by
  have hpos : (0 : Rat) < 2 ^ exponent := by positivity
  have herror := h.error
  rw [value_encode h.toFits]
  rcases Nat.lt_trichotomy bits (encode exponent mantissa) with hlt | rfl | hgt
  · by_cases hleast : exponent = -1074 ∨ 2 ^ 52 < mantissa
    · have hmantissa : 0 < mantissa := by
        rcases hleast with rfl | hlarge
        · exact Nat.pos_of_ne_zero fun hzero => by simp [encode, hzero] at hlt
        · omega
      have hfits : Fits exponent (mantissa - 1) :=
        ⟨h.least, (Nat.sub_le _ _).trans h.most, hleast.imp_right Nat.le_sub_one_of_lt⟩
      have hle : bits ≤ encode exponent (mantissa - 1) := by
        rw [encode] at hlt ⊢
        omega
      have hvalue := value_strictMono.monotone hle
      rw [value_encode hfits, Nat.cast_pred hmantissa] at hvalue
      have hfar : 2 ^ exponent / 2 ≤ q - value bits := by
        have hnear := (abs_le.1 herror).1
        linarith
      exact herror.trans (hfar.trans (le_abs_self _))
    -- Below a power of two the doubles lie closer, but so does the number above it.
    · obtain ⟨hne, hle⟩ := not_or.1 hleast
      obtain rfl : mantissa = 2 ^ 52 := le_antisymm (not_lt.1 hle) (h.full.resolve_left hne)
      have habove := h.le.resolve_left hne
      have hvalue := value_strictMono hlt
      rw [value_encode h.toFits] at hvalue
      push_cast at hvalue ⊢
      rw [abs_of_nonneg (by linarith), abs_of_nonneg (by linarith)]
      linarith
  · rw [value_encode h.toFits]
  · have hvalue := (add_le_value_succ h.toFits).trans (value_strictMono.monotone hgt)
    have hfar : 2 ^ exponent / 2 ≤ -(q - value bits) := by
      have hnear := (abs_le.1 herror).2
      linarith
    exact herror.trans (hfar.trans (neg_le_abs _))

/-- The lesser of two numbers is not rounded at the greater exponent. -/
theorem RoundsTo.exponent_le (h : RoundsTo q exponent mantissa)
    (h' : RoundsTo q' exponent' mantissa') (hle : q ≤ q') : exponent ≤ exponent' := by
  by_contra hlt
  have hpow := two_zpow_lt (not_le.1 hlt)
  have hnot : exponent ≠ -1074 := by
    have hleast := h'.least
    omega
  have habove := h.le.resolve_left hnot
  have hbelow := h'.lt
  linarith

section

variable {num den num' den' : Nat}

/-- A quotient is rounded at the exponent of its mantissa. -/
theorem roundsTo_quotient (hnum : 0 < num) (hden : 0 < den) :
    RoundsTo (num / den) (mantissaExponent num den)
      (roundHalfEven (scaleDown (mantissaExponent num den) num den).1
        (scaleDown (mantissaExponent num den) num den).2) := by
  obtain ⟨hleast, hlt, hle⟩ := mantissaExponent_spec hnum hden
  generalize mantissaExponent num den = exponent at hleast hlt hle ⊢
  have hpos : (0 : Rat) < 2 ^ exponent := by positivity
  have hhalf := abs_sub_roundHalfEven_le (scaleDown exponent num den).1
    (scaleDown_pos hden exponent num)
  rw [scaleDown_div] at hhalf
  generalize roundHalfEven _ _ = mantissa at hhalf ⊢
  obtain ⟨hlow, hhigh⟩ := abs_le.1 hhalf
  have hscaled : (num : Rat) / den / 2 ^ exponent < 2 ^ 53 := (div_lt_iff₀ hpos).2 hlt
  refine ⟨⟨hleast, ?_, hle.imp_right fun hle => ?_⟩, hlt, hle, ?_⟩
  -- The mantissa is a half away from the scaled number, so it can come to 2 ^ 53 but not beyond.
  · have hmantissa : (mantissa : Rat) < 2 ^ 53 + 1 := by linarith
    exact Nat.le_of_lt_succ (by exact_mod_cast hmantissa)
  · have habove : (2 ^ 52 : Rat) ≤ num / den / 2 ^ exponent := (le_div_iff₀ hpos).2 hle
    have hmantissa : (2 ^ 52 : Rat) < mantissa + 1 := by linarith
    exact Nat.le_of_lt_succ (by exact_mod_cast hmantissa)
  -- Scaled back, the distance is half a unit of the mantissa.
  · have hfactor : (num : Rat) / den - mantissa * 2 ^ exponent =
        (num / den / 2 ^ exponent - mantissa) * 2 ^ exponent := by
      rw [sub_mul, div_mul_cancel₀ _ hpos.ne']
    rw [hfactor, abs_mul, abs_of_pos hpos]
    calc |(num : Rat) / den / 2 ^ exponent - mantissa| * 2 ^ exponent
        ≤ 1 / 2 * 2 ^ exponent := mul_le_mul_of_nonneg_right hhalf hpos.le
      _ = 2 ^ exponent / 2 := by ring

/-- The bits for a quotient are those of what it is rounded to, or of infinity. -/
theorem nearestBits_eq (den : Nat) (hnum : 0 < num) :
    nearestBits num den = min (encode (mantissaExponent num den)
      (roundHalfEven (scaleDown (mantissaExponent num den) num den).1
        (scaleDown (mantissaExponent num den) num den).2)) infinityBits := by
  rw [nearestBits, if_neg hnum.ne']
  rfl

/-- A number in range is not rounded to infinity. -/
theorem RoundsTo.encode_lt (h : RoundsTo q exponent mantissa) (hq : q < 2 ^ 1023) :
    encode exponent mantissa < infinityBits := by
  -- From 971 on the number would be 2 ^ 1023 at least.
  have hexponent : exponent ≤ 970 := by
    by_contra hgt
    have hpow : (2 : Rat) ^ (971 : Int) ≤ 2 ^ exponent :=
      zpow_le_zpow_right₀ one_le_two (by omega)
    have habove := h.le.resolve_left (by omega)
    have hsplit : (2 : Rat) ^ 1023 = 2 ^ 52 * 2 ^ (971 : Int) := by
      rw [zpow_ofNat, ← pow_add]
    rw [hsplit] at hq
    linarith
  have hmost := h.most
  have hleast := h.least
  show (exponent + 1074).toNat * 2 ^ 52 + mantissa < 2047 * 2 ^ 52
  omega

/-- Zero is a double. -/
theorem nearestBits_zero (den : Nat) : nearestBits 0 den = 0 :=
  if_pos rfl

/-- The bits for a quotient in range are not those of infinity. -/
theorem nearestBits_lt_infinity (hden : 0 < den) (hrange : (num : Rat) / den < 2 ^ 1023) :
    nearestBits num den < infinityBits := by
  rcases Nat.eq_zero_or_pos num with rfl | hnum
  · rw [nearestBits_zero]
    decide
  · rw [nearestBits_eq den hnum]
    exact (min_le_left _ _).trans_lt ((roundsTo_quotient hnum hden).encode_lt hrange)

/-- No double is nearer to a quotient in range than the one whose bits are taken. -/
theorem abs_sub_value_nearestBits_le (hden : 0 < den) (hrange : (num : Rat) / den < 2 ^ 1023)
    (bits : Nat) :
    |(num : Rat) / den - value (nearestBits num den)| ≤ |num / den - value bits| := by
  rcases Nat.eq_zero_or_pos num with rfl | hnum
  · rw [nearestBits_zero, value_zero, Nat.cast_zero, zero_div, sub_zero, abs_zero]
    exact abs_nonneg _
  · have hrounds := roundsTo_quotient hnum hden
    rw [nearestBits_eq den hnum, min_eq_left (hrounds.encode_lt hrange).le]
    exact hrounds.nearest bits

/-- The double nearest to a quotient that is not too close to zero differs from it
by a part in 2^53 at most. -/
theorem abs_sub_value_nearestBits_le_div (hden : 0 < den)
    (hrange : (num : Rat) / den < 2 ^ 1023)
    (hfar : 0 < num → 2 ^ (-1022 : Int) ≤ (num : Rat) / den) :
    |(num : Rat) / den - value (nearestBits num den)| ≤ num / den / 2 ^ 53 := by
  rcases Nat.eq_zero_or_pos num with rfl | hnum
  · simp [nearestBits_zero, value_zero]
  · have hrounds := roundsTo_quotient hnum hden
    rw [nearestBits_eq den hnum, min_eq_left (hrounds.encode_lt hrange).le,
      value_encode hrounds.toFits]
    refine hrounds.error.trans ?_
    -- The mantissa is full, also at the least exponent, as the number is not subnormal.
    have hfull : 2 ^ 52 * 2 ^ mantissaExponent num den ≤ (num : Rat) / den := by
      rcases hrounds.le with hleast | hle
      · have hpow : (2 : Rat) ^ (-1022 : Int) = 2 ^ 52 * 2 ^ (-1074 : Int) := by
          rw [← zpow_natCast, ← zpow_add₀ two_ne_zero]
          rfl
        rw [hleast, ← hpow]
        exact hfar hnum
      · exact hle
    linarith

end

/-! ### The order of quotients -/

/-- Bits are in order if exponents are, and mantissas at the same exponent. -/
theorem RoundsTo.encode_le (h : RoundsTo q exponent mantissa)
    (h' : RoundsTo q' exponent' mantissa') (hexponent : exponent ≤ exponent')
    (hmantissa : exponent = exponent' → mantissa ≤ mantissa') :
    encode exponent mantissa ≤ encode exponent' mantissa' := by
  have hleast := h.least
  have hmost := h.most
  rcases lt_or_eq_of_le hexponent with hlt | rfl
  -- At a greater exponent the mantissa is full.
  · have hfull := h'.full.resolve_left (by omega)
    rw [encode, encode]
    omega
  · exact Nat.add_le_add_left (hmantissa rfl) _

section

variable {num den num' den' : Nat}

/-- Two quotients are compared by multiplying crosswise. -/
theorem quotient_le_iff (hden : 0 < den) (hden' : 0 < den') :
    (num : Rat) / den ≤ num' / den' ↔ num * den' ≤ num' * den := by
  rw [div_le_div_iff₀ (by exact_mod_cast hden) (by exact_mod_cast hden')]
  exact_mod_cast Iff.rfl

/-- The greater of two quotients has no lesser bits. -/
theorem nearestBits_mono (hden : 0 < den) (hden' : 0 < den')
    (h : num * den' ≤ num' * den) : nearestBits num den ≤ nearestBits num' den' := by
  rcases Nat.eq_zero_or_pos num with rfl | hnum
  · rw [nearestBits_zero]
    exact Nat.zero_le _
  have hnum' : 0 < num' := Nat.pos_of_mul_pos_right ((Nat.mul_pos hnum hden').trans_le h)
  have hrounds := roundsTo_quotient hnum hden
  have hrounds' := roundsTo_quotient hnum' hden'
  have hexponent := hrounds.exponent_le hrounds' ((quotient_le_iff hden hden').2 h)
  rw [nearestBits_eq den hnum, nearestBits_eq den' hnum']
  refine min_le_min_right _ (hrounds.encode_le hrounds' hexponent fun heq => ?_)
  rw [← heq]
  refine roundHalfEven_mono (scaleDown_pos hden _ _) (scaleDown_pos hden' _ _) ?_
  -- Both quotients are scaled by the same power of two.
  rw [← quotient_le_iff (scaleDown_pos hden _ _) (scaleDown_pos hden' _ _), scaleDown_div,
    scaleDown_div]
  exact div_le_div_of_nonneg_right ((quotient_le_iff hden hden').2 h) (by positivity)

/-- A quotient of a small number is in range. -/
theorem quotient_lt_of_small (hden : 0 < den) (hsmall : num < 2 ^ 52) :
    (num : Rat) / den < 2 ^ 1023 := by
  have hle : num / (den : Rat) ≤ num := div_le_self (Nat.cast_nonneg _) (by exact_mod_cast hden)
  have hnum : (num : Rat) < 2 ^ 52 := by exact_mod_cast hsmall
  have hpow : (2 : Rat) ^ 52 ≤ 2 ^ 1023 := pow_le_pow_right₀ one_le_two (by norm_num)
  exact (hle.trans_lt hnum).trans_le hpow

/-- A quotient by a small number is not too close to zero for a full mantissa. -/
theorem le_quotient_of_small (hnum : 0 < num) (hden : 0 < den) (hsmall : den < 2 ^ 52) :
    2 ^ (-1022 : Int) ≤ (num : Rat) / den := by
  have hnumRat : (1 : Rat) ≤ num := by exact_mod_cast hnum
  have hdenRat : (den : Rat) ≤ 2 ^ 52 := by exact_mod_cast hsmall.le
  calc (2 : Rat) ^ (-1022 : Int) ≤ 2 ^ (-52 : Int) := zpow_le_zpow_right₀ one_le_two (by norm_num)
    _ = 1 / 2 ^ 52 := by rw [zpow_neg, one_div, zpow_ofNat]
    _ ≤ num / den := div_le_div₀ (by positivity) hnumRat (by exact_mod_cast hden) hdenRat

/-- Two quotients that differ do so by a part in the product of their denominators
at least. -/
theorem le_sub_quotients (hden : 0 < den) (hden' : 0 < den') (h : num * den' < num' * den) :
    1 / ((den : Rat) * den') ≤ num' / den' - num / den := by
  have hdenRat : (0 : Rat) < den := by exact_mod_cast hden
  have hdenRat' : (0 : Rat) < den' := by exact_mod_cast hden'
  rw [div_sub_div _ _ hdenRat'.ne' hdenRat.ne', mul_comm (den : Rat)]
  refine div_le_div_of_nonneg_right ?_ (by positivity)
  have hone : (num : Rat) * den' + 1 ≤ num' * den := by exact_mod_cast h
  linarith

/-- A quotient of small numbers is told from a lesser one, also when both are
rounded. -/
theorem nearestBits_lt (hden : 0 < den) (hden' : 0 < den') (h : num * den' < num' * den)
    (hsmall : num' * den < 2 ^ 52) (htiny : den * den' < 2 ^ 52) :
    nearestBits num den < nearestBits num' den' := by
  refine lt_of_le_of_ne (nearestBits_mono hden hden' h.le) fun heq => ?_
  have hdenRat : (0 : Rat) < den := by exact_mod_cast hden
  have hdenRat' : (0 : Rat) < den' := by exact_mod_cast hden'
  have hnum' : 0 < num' := Nat.pos_of_mul_pos_right (Nat.zero_lt_of_lt h)
  have hlt : (num : Rat) / den < num' / den' := by
    rw [div_lt_div_iff₀ hdenRat hdenRat']
    exact_mod_cast h
  have hrange := quotient_lt_of_small hden' ((Nat.le_mul_of_pos_right num' hden).trans_lt hsmall)
  -- Both are near the same double, but not that near each other.
  have hnear := abs_sub_value_nearestBits_le_div hden (hlt.trans hrange) fun hnum =>
    le_quotient_of_small hnum hden ((Nat.le_mul_of_pos_left den hnum').trans_lt hsmall)
  have hnear' := abs_sub_value_nearestBits_le_div hden' hrange fun _ =>
    le_quotient_of_small hnum' hden' ((Nat.le_mul_of_pos_left den' hden).trans_lt htiny)
  rw [heq] at hnear
  have hclose : (num' : Rat) / den' - num / den < num' / den' / 2 ^ 52 := by
    have hlow := (abs_le.1 hnear).1
    have hhigh := (abs_le.1 hnear').2
    linarith
  have hfar := (le_sub_quotients hden hden' h).trans_lt hclose
  rw [div_div, div_lt_div_iff₀ (by positivity) (by positivity)] at hfar
  have hmany : (2 ^ 52 : Rat) < num' * den := by
    refine lt_of_mul_lt_mul_right ?_ hdenRat'.le
    linarith
  exact absurd (by exact_mod_cast hmany) hsmall.not_gt

end

/-! ### Rounded numbers -/

/-- The double nearest to a number that is not negative, as a number. -/
def rounded (q : Rat) : Rat :=
  value (nearestBits q.num.toNat q.den)

/-- A number that is not negative, as a quotient of numbers without signs. -/
theorem num_toNat_div_den {q : Rat} (h : 0 ≤ q) : ((q.num.toNat : Nat) : Rat) / q.den = q := by
  have hnum : ((q.num.toNat : Nat) : Int) = q.num := Int.toNat_of_nonneg (Rat.num_nonneg.2 h)
  calc ((q.num.toNat : Nat) : Rat) / q.den = ((q.num.toNat : Nat) : Int) / q.den := by
        rw [Int.cast_natCast]
    _ = q := by rw [hnum, Rat.num_div_den]

/-- No double is nearer to a number in range than the one that it is rounded to. -/
theorem abs_sub_rounded_le {q : Rat} (h : 0 ≤ q) (hrange : q < 2 ^ 1023) (bits : Nat) :
    |q - rounded q| ≤ |q - value bits| := by
  have hq := num_toNat_div_den h
  have hnear := abs_sub_value_nearestBits_le q.den_pos (by rwa [hq]) bits
  rwa [hq] at hnear

/-- How a number is written as a quotient makes no difference to the nearest
double. -/
theorem rounded_div (num : Nat) {den : Nat} (hden : 0 < den) :
    rounded (num / den) = value (nearestBits num den) := by
  have hq := num_toNat_div_den (show 0 ≤ (num : Rat) / den by positivity)
  have hpos := ((num : Rat) / den).den_pos
  refine congrArg value
    (le_antisymm (nearestBits_mono hpos hden ?_) (nearestBits_mono hden hpos ?_))
  · exact (quotient_le_iff hpos hden).1 hq.le
  · exact (quotient_le_iff hden hpos).1 hq.ge

/-- Rounding does not turn numbers around. -/
theorem rounded_mono {q q' : Rat} (h : 0 ≤ q) (hle : q ≤ q') : rounded q ≤ rounded q' := by
  refine value_strictMono.monotone (nearestBits_mono q.den_pos q'.den_pos ?_)
  refine (quotient_le_iff q.den_pos q'.den_pos).1 ?_
  rwa [num_toNat_div_den h, num_toNat_div_den (h.trans hle)]

end Flowchart.Number
