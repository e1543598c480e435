import Mathlib.Algebra.Order.Ring.Rat
import Flowchart.Number.Exact
import Flowchart.Proofs.Except

/-!
# `Flowchart.Proofs.Number.Exact`: computing with exact lengths

Over fractions every operation of lengths has the result that its name
promises, a division by zero aside. Layouts and cameras over fractions are
opened with these equations, step by step, and what is left of them are
inequalities.

* `add_exact`, `sub_exact` and so on: the result of one operation;
* `larger_exact`, `smaller_exact`: the greater and the lesser of two lengths;
* `max?_of_largest`, `min?_of_smallest`: the greatest and the least of a row;
* `total_exact`: the sum of a row.
-/

set_option autoImplicit false

namespace Flowchart.Arithmetic

section
variable (a b : Rat)

/-- A whole number is a fraction. -/
@[simp] theorem whole_exact (n : Int) : (whole n : Rat) = n := rfl

/-- A decimal is a fraction. -/
@[simp] theorem decimal_exact (coefficient : Int) (places : Nat) :
    (decimal coefficient places : Rat) = coefficient / 10 ^ places := rfl

/-- A sum is a sum of fractions. -/
@[simp] theorem add_exact : add a b = .ok (a + b) := rfl

/-- A difference is a difference of fractions. -/
@[simp] theorem sub_exact : sub a b = .ok (a - b) := rfl

/-- A product is a product of fractions. -/
@[simp] theorem mul_exact : mul a b = .ok (a * b) := rfl

/-- A negative is that of a fraction. -/
@[simp] theorem neg_exact : neg a = .ok (-a) := rfl

/-- A quotient is a quotient of fractions, unless something is divided by zero.
-/
theorem div_exact {b : Rat} (h : b ≠ 0) : div a b = .ok (a / b) := if_neg h

/-- Nothing is divided by zero. -/
theorem div_zero_exact : div a 0 = .error (.divisionByZero false) := if_pos rfl

/-- The order is that of fractions. -/
@[simp] theorem holds_lessOrEqual_exact : holds .lessOrEqual a b = .ok (decide (a ≤ b)) := rfl

/-- The larger one is the greater fraction. -/
@[simp] theorem larger_exact : larger a b = .ok (max a b) := by
  change Except.ok (if decide (a < b) = true then b else a) = _
  rcases lt_or_ge a b with h | h
  · simp [h, max_eq_right h.le]
  · simp [h.not_gt, max_eq_left h]

/-- The smaller one is the lesser fraction. -/
@[simp] theorem smaller_exact : smaller a b = .ok (min a b) := by
  change Except.ok (if decide (b < a) = true then b else a) = _
  rcases lt_or_ge b a with h | h
  · simp [h, min_eq_right h.le]
  · simp [h.not_gt, min_eq_left h]

end

/-- The largest one is the greatest fraction. -/
theorem largest_exact (first : Rat) (rest : List Rat) :
    largest first rest = .ok (rest.foldl max first) := by
  induction rest generalizing first with
  | nil => rfl
  | cons next rest ih =>
    rw [largest, List.foldlM_cons, larger_exact, ok_bind]
    exact ih (max first next)

/-- The smallest one is the least fraction. -/
theorem smallest_exact (first : Rat) (rest : List Rat) :
    smallest first rest = .ok (rest.foldl min first) := by
  induction rest generalizing first with
  | nil => rfl
  | cons next rest ih =>
    rw [smallest, List.foldlM_cons, smaller_exact, ok_bind]
    exact ih (min first next)

section

variable {first : Rat} {rest : List Rat}

/-- The largest of lengths is the maximum of the list. -/
theorem max?_of_largest {greatest : Rat} (h : largest first rest = .ok greatest) :
    (first :: rest).max? = some greatest := by
  rw [largest_exact, Except.ok.injEq] at h
  rw [List.max?_cons', h]

/-- The smallest of lengths is the minimum of the list. -/
theorem min?_of_smallest {least : Rat} (h : smallest first rest = .ok least) :
    (first :: rest).min? = some least := by
  rw [smallest_exact, Except.ok.injEq] at h
  rw [List.min?_cons', h]

end

/-- Lengths are added up to their sum. -/
theorem total_exact (lengths : List Rat) : total lengths = .ok lengths.sum := by
  have hfrom : ∀ start : Rat, lengths.foldlM add start = .ok (start + lengths.sum) := by
    induction lengths with
    | nil =>
      intro start
      rw [List.sum_nil, add_zero]
      rfl
    | cons length lengths ih =>
      intro start
      rw [List.foldlM_cons, add_exact, ok_bind, ih, List.sum_cons, add_assoc]
  have hzero := hfrom 0
  rwa [zero_add] at hzero

end Flowchart.Arithmetic
