import Flowchart.Json.Arithmetic
import Flowchart.Proofs.Number.Range

/-!
# `Flowchart.Proofs.Json.Lengths`: settings that are numbers

Lengths from a settings file can be any values. Operations on numbers are refused
in two cases only: where a whole number that meets a double is out of the range
of doubles, and where something is divided by zero. So computations on numbers
succeed as long as the whole ones among them stay in range, and the bounds of the
results follow from those of the operands. Once a double has come in, a sum stays
a double, and no bound is needed.

A value that is no number, on the other hand, can be joined and repeated for a
while, but it never becomes a number.

* `IsNumber`, `IsDouble`, `Within`: the kinds of lengths;
* `add_within`, `mul_within`, `total_within`: bounds of results;
* `add_double`, `sub_double`, `halve_double`: results that are doubles;
* `isNumber_of_add` and so on: operands of operations with a number in them.
-/

set_option autoImplicit false

namespace Flowchart

open Number (doubleRange)

namespace Number.Scalar

/-- A number is at most a bound in size if it is whole. -/
def Within (bound : Nat) : Scalar → Prop
  | .int n => n.natAbs ≤ bound
  | .double _ => True

/-- A number is a double. -/
def IsDouble : Scalar → Prop
  | .int _ => False
  | .double _ => True

variable {x y : Scalar} {r s : Nat}

/-- A number whose size is in the range of doubles becomes one. -/
theorem toDouble_succeeds (hx : x.Within r) (hr : r < doubleRange) : Succeeds x.toDouble := by
  cases x with
  | int n => exact roundInt_succeeds (lt_of_le_of_lt hx hr)
  | double x => exact ⟨x, rfl⟩

section

variable {onInts : Int → Int → Int} {onDoubles : Float → Float → Float}

/-- An operation on two numbers in range has a result, with a bound that the
operation on whole numbers gives. -/
theorem combine_within {t : Nat} (hx : x.Within r) (hy : y.Within s) (hr : r < doubleRange)
    (hs : s < doubleRange)
    (hints : ∀ a b : Int, a.natAbs ≤ r → b.natAbs ≤ s → (onInts a b).natAbs ≤ t) :
    Yields (combine onInts onDoubles x y) (Within t) := by
  obtain ⟨x', hx'⟩ := toDouble_succeeds hx hr
  obtain ⟨y', hy'⟩ := toDouble_succeeds hy hs
  cases x <;> cases y
  case int.int a b => exact .ok (hints a b hx hy)
  all_goals
    simp only [combine, hx', hy', ok_bind]
    exact .ok trivial

/-- A number that meets a double makes a double. -/
theorem combine_double (hx : x.IsDouble) (hy : y.Within s) (hs : s < doubleRange) :
    Yields (combine onInts onDoubles x y) IsDouble := by
  obtain ⟨y', hy'⟩ := toDouble_succeeds hy hs
  cases x with
  | int n => exact hx.elim
  | double x =>
    have hx' : toDouble (.double x) = .ok x := rfl
    cases y
    all_goals
      simp only [combine, hx', hy', ok_bind]
      exact .ok trivial

end

/-- Half of a number in range is a double. -/
theorem halve_double (hx : x.Within r) (hr : r < doubleRange) :
    Yields (x.div (.int 2)) IsDouble := by
  have htwo : toDouble (.int 2) = .ok (nearest false 2 1) := by rfl
  have hne : (nearest false 2 1 == 0) = false := by rfl
  cases x with
  -- Two whole numbers are divided as such and rounded once.
  | int n =>
    have hlt : n.natAbs < doubleRange := lt_of_le_of_lt hx hr
    have hfinite : ∀ negative, (nearest negative n.natAbs (2 : Int).natAbs).isInf = false :=
      fun negative => isInf_nearest negative hlt (by decide)
    simp only [div, hfinite]
    exact .ok trivial
  | double x =>
    rw [div, htwo, toDouble, ok_bind, ok_bind, hne]
    exact .ok trivial
    all_goals nofun

end Number.Scalar

namespace Json

/-- A value counts as a number. -/
def IsNumber (value : Json) : Prop :=
  ∃ x, value.scalar? = some x

/-- A number is at most a bound in size if it is whole. -/
def Within (bound : Nat) (value : Json) : Prop :=
  ∃ x, value.scalar? = some x ∧ x.Within bound

/-- A value is a double. -/
def IsDouble (value : Json) : Prop :=
  ∃ x, value.scalar? = some x ∧ x.IsDouble

variable {a b : Json} {r s : Nat}

/-- What is bounded is a number. -/
theorem Within.isNumber (h : a.Within r) : a.IsNumber :=
  let ⟨x, hx, _⟩ := h
  ⟨x, hx⟩

/-- A greater bound holds too. -/
theorem Within.mono (h : a.Within r) (hle : r ≤ s) : a.Within s := by
  obtain ⟨x, hx, hr⟩ := h
  refine ⟨x, hx, ?_⟩
  cases x with
  | int n => exact le_trans hr hle
  | double x => trivial

/-- A double is within any bound. -/
theorem IsDouble.within (h : a.IsDouble) (bound : Nat) : a.Within bound := by
  obtain ⟨x, hx, hdouble⟩ := h
  refine ⟨x, hx, ?_⟩
  cases x with
  | int n => exact hdouble.elim
  | double x => trivial

/-- A double is a number. -/
theorem IsDouble.isNumber (h : a.IsDouble) : a.IsNumber :=
  (h.within 0).isNumber

/-- A whole length is within the bounds of its size. -/
theorem within_whole {n : Int} (h : n.natAbs ≤ r) : Within r (Arithmetic.whole n) :=
  ⟨.int n, rfl, h⟩

/-- A decimal is a double. -/
theorem isDouble_decimal (coefficient : Int) (places : Nat) :
    IsDouble (Arithmetic.decimal coefficient places) :=
  ⟨_, rfl, trivial⟩

/-! ### Numbers in range -/

/-- What an operation on numbers yields is a value that is a number. -/
theorem yields_number {x : Except Fault Number.Scalar} {P : Number.Scalar → Prop}
    (h : Yields x P) : Yields (x.map number) fun value => ∃ y, value.scalar? = some y ∧ P y := by
  obtain ⟨y, rfl, hP⟩ := h
  exact .ok ⟨y, rfl, hP⟩

/-- A sum has a result, within the sum of the bounds. -/
theorem add_within (ha : a.Within r) (hb : b.Within s) (hr : r < doubleRange)
    (hs : s < doubleRange) : Yields (Arithmetic.add a b) (Within (r + s)) := by
  obtain ⟨x, hx, hxr⟩ := ha
  obtain ⟨y, hy, hys⟩ := hb
  simp only [Arithmetic.add, add, hx, hy]
  refine yields_number (Number.Scalar.combine_within hxr hys hr hs fun m n hm hn => ?_)
  exact (Int.natAbs_add_le m n).trans (Nat.add_le_add hm hn)

/-- A product has a result, within the product of the bounds. -/
theorem mul_within (ha : a.Within r) (hb : b.Within s) (hr : r < doubleRange)
    (hs : s < doubleRange) : Yields (Arithmetic.mul a b) (Within (r * s)) := by
  obtain ⟨x, hx, hxr⟩ := ha
  obtain ⟨y, hy, hys⟩ := hb
  simp only [Arithmetic.mul, mul, hx, hy]
  refine yields_number (Number.Scalar.combine_within hxr hys hr hs fun m n hm hn => ?_)
  rw [Int.natAbs_mul]
  exact Nat.mul_le_mul hm hn

/-- The negative of a number has the bounds of the number. -/
theorem neg_within (ha : a.Within r) : Yields (Arithmetic.neg a) (Within r) := by
  obtain ⟨x, hx, hxr⟩ := ha
  simp only [Arithmetic.neg, neg, hx]
  refine .ok ⟨x.neg, rfl, ?_⟩
  cases x with
  | int n => exact (Int.natAbs_neg n).trans_le hxr
  | double x => trivial

/-- Half of a number is a double. -/
theorem halve_double (ha : a.Within r) (hr : r < doubleRange) :
    Yields (Arithmetic.div a (Arithmetic.whole 2)) IsDouble := by
  obtain ⟨x, hx, hxr⟩ := ha
  simp only [Arithmetic.div, div, hx]
  exact yields_number (Number.Scalar.halve_double hxr hr)

/-- A double makes a sum a double. -/
theorem add_double (ha : a.IsDouble) (hb : b.Within s) (hs : s < doubleRange) :
    Yields (Arithmetic.add a b) IsDouble := by
  obtain ⟨x, hx, hdouble⟩ := ha
  obtain ⟨y, hy, hys⟩ := hb
  simp only [Arithmetic.add, add, hx, hy]
  exact yields_number (Number.Scalar.combine_double hdouble hys hs)

/-- A double makes a difference a double. -/
theorem sub_double (ha : a.IsDouble) (hb : b.Within s) (hs : s < doubleRange) :
    Yields (Arithmetic.sub a b) IsDouble := by
  obtain ⟨x, hx, hdouble⟩ := ha
  obtain ⟨y, hy, hys⟩ := hb
  simp only [Arithmetic.sub, sub, hx, hy]
  exact yields_number (Number.Scalar.combine_double hdouble hys hs)

/-- Numbers have an order. -/
theorem holds_succeeds (relation : Relation) (ha : a.IsNumber) (hb : b.IsNumber) :
    Succeeds (Arithmetic.holds relation a b) := by
  obtain ⟨x, hx⟩ := ha
  obtain ⟨y, hy⟩ := hb
  cases a <;> cases hx <;> cases b <;> cases hy <;> exact ⟨_, rfl⟩

section

variable {P : Json → Prop} (hP : ∀ value, P value → value.IsNumber)

include hP

/-- Of two numbers of a kind, the larger one is of that kind. -/
theorem larger_yields (ha : P a) (hb : P b) : Yields (Arithmetic.larger a b) P := by
  obtain ⟨isLarger, hholds⟩ := holds_succeeds .greater (hP b hb) (hP a ha)
  rw [Arithmetic.larger, hholds, ok_bind]
  refine .ok ?_
  split
  · exact hb
  · exact ha

/-- Of two numbers of a kind, the smaller one is of that kind. -/
theorem smaller_yields (ha : P a) (hb : P b) : Yields (Arithmetic.smaller a b) P := by
  obtain ⟨isSmaller, hholds⟩ := holds_succeeds .less (hP b hb) (hP a ha)
  rw [Arithmetic.smaller, hholds, ok_bind]
  refine .ok ?_
  split
  · exact hb
  · exact ha

/-- Of some numbers of a kind, the largest one is of that kind. -/
theorem largest_yields {rest : List Json} (ha : P a) (hrest : ∀ value ∈ rest, P value) :
    Yields (Arithmetic.largest a rest) P :=
  .foldlM ha fun _ hb c hc => larger_yields hP hb (hrest c hc)

/-- Of some numbers of a kind, the smallest one is of that kind. -/
theorem smallest_yields {rest : List Json} (ha : P a) (hrest : ∀ value ∈ rest, P value) :
    Yields (Arithmetic.smallest a rest) P :=
  .foldlM ha fun _ hb c hc => smaller_yields hP hb (hrest c hc)

end

/-- A sum stays in range if as many times the bound of its terms does. -/
theorem total_within {lengths : List Json} (h : ∀ value ∈ lengths, value.Within r)
    (hrange : lengths.length * r < doubleRange) :
    Yields (Arithmetic.total lengths) (Within (lengths.length * r)) := by
  -- The sum so far has a bound for as many terms as went into it.
  have hfold : ∀ (rest : List Json) (start : Json) (count : Nat), start.Within (count * r) →
      (∀ value ∈ rest, value.Within r) → (count + rest.length) * r < doubleRange →
      Yields (rest.foldlM Arithmetic.add start) (Within ((count + rest.length) * r)) := by
    intro rest
    induction rest with
    | nil => exact fun start count hstart _ _ => .ok hstart
    | cons value rest ih =>
      intro start count hstart hvalues hrange
      obtain ⟨hvalue, hrest⟩ := List.forall_mem_cons.1 hvalues
      have hlength : count + (value :: rest).length = count + 1 + rest.length := by
        rw [List.length_cons]
        omega
      rw [hlength] at hrange ⊢
      have hcount : count * r < doubleRange :=
        (Nat.mul_le_mul_right r (by omega)).trans_lt hrange
      have hone : r < doubleRange := (Nat.le_mul_of_pos_left r (by omega)).trans_lt hrange
      rw [List.foldlM_cons]
      refine (add_within hstart hvalue hcount hone).bind fun sum hsum => ?_
      exact ih sum (count + 1) ((Nat.succ_mul count r) ▸ hsum) hrest hrange
  have hzero : Within (0 * r) (Arithmetic.whole 0) :=
    within_whole (Nat.zero_le _)
  have hsum := hfold lengths _ 0 hzero h (by rwa [Nat.zero_add])
  rwa [Nat.zero_add] at hsum

/-! ### Values that are no numbers -/

/-- What an operation on numbers gives is a number. -/
theorem isNumber_of_map_number {x : Except Fault Number.Scalar} {c : Json}
    (h : x.map number = .ok c) : c.IsNumber := by
  cases x with
  | error fault => cases h
  | ok y =>
    cases h
    exact ⟨y, rfl⟩

/-- In a sum all values are numbers, or none is. -/
theorem isNumber_of_add {c : Json} (h : Arithmetic.add a b = .ok c) :
    (a.IsNumber ↔ b.IsNumber) ∧ (a.IsNumber ↔ c.IsNumber) := by
  change add a b = .ok c at h
  unfold add at h
  split at h
  · rename_i x y hx hy
    have ha : a.IsNumber := ⟨x, hx⟩
    exact ⟨iff_of_true ha ⟨y, hy⟩, iff_of_true ha (isNumber_of_map_number h)⟩
  · split at h
    · cases h
      simp [IsNumber, scalar?]
    · cases h
      simp [IsNumber, scalar?]
    all_goals cases h

/-- A text or list that is repeated is no number. -/
theorem not_isNumber_of_repetition {sequence count c : Json}
    (hsequence : sequence.isSequence = true) (h : repetition sequence count = .ok c) :
    ¬c.IsNumber := by
  have hrepeated : ∀ n, sequence.repeated? n = .ok c → ¬c.IsNumber := by
    intro n hn
    cases sequence
    case string text | array items =>
      unfold repeated? at hn
      dsimp only at hn
      -- Whatever room there is, what comes of it is of the same kind.
      split_ifs at hn <;> cases hn <;> simp [IsNumber, scalar?]
    all_goals cases hsequence
  unfold repetition at h
  split at h
  · split at h
    · cases h
    · exact hrepeated _ h
  · cases h

/-- A product that is a number is one of numbers. -/
theorem isNumber_of_mul {c : Json} (h : Arithmetic.mul a b = .ok c) (hc : c.IsNumber) :
    a.IsNumber ∧ b.IsNumber := by
  change mul a b = .ok c at h
  unfold mul at h
  split at h
  · rename_i x y hx hy
    exact ⟨⟨x, hx⟩, ⟨y, hy⟩⟩
  · split at h
    · rename_i hsequence
      exact absurd hc (not_isNumber_of_repetition hsequence h)
    · split at h
      · rename_i hsequence
        exact absurd hc (not_isNumber_of_repetition hsequence h)
      · cases h

/-- A number only has an order with a number. -/
theorem isNumber_of_holds {relation : Relation} {result : Bool}
    (h : Arithmetic.holds relation a b = .ok result) (ha : a.IsNumber) : b.IsNumber := by
  obtain ⟨x, hx⟩ := ha
  change holds relation a b = .ok result at h
  cases a <;> cases hx <;> cases b <;> first | exact ⟨_, rfl⟩ | cases h

/-- What is the larger or the smaller of two values has an order with both. -/
theorem isNumber_of_larger {c : Json} (h : Arithmetic.larger a b = .ok c) (hb : b.IsNumber) :
    a.IsNumber ∧ c.IsNumber := by
  obtain ⟨isLarger, hholds, h⟩ := bind_eq_ok.1 h
  have ha := isNumber_of_holds hholds hb
  cases h
  refine ⟨ha, ?_⟩
  split
  · exact hb
  · exact ha

/-- A value that a number can be smaller than is a number, and so is the smaller
of both. -/
theorem isNumber_of_smaller {c : Json} (h : Arithmetic.smaller a b = .ok c) (hb : b.IsNumber) :
    a.IsNumber ∧ c.IsNumber := by
  obtain ⟨isSmaller, hholds, h⟩ := bind_eq_ok.1 h
  have ha := isNumber_of_holds hholds hb
  cases h
  refine ⟨ha, ?_⟩
  split
  · exact hb
  · exact ha

end Json

end Flowchart
