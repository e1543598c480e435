/-!
# `Flowchart.Text.Slice`: cuts with signed bounds

A bound below zero counts from the end of the sequence, and a bound beyond
either end is moved to that end. A start at or behind the stop cuts nothing
out.

- `place_le`: a bound always lands inside the sequence;
- `length_slice`: the length of a cut is the distance of its two places.
-/

set_option autoImplicit false

namespace Flowchart.Text

variable {α : Type}

/-- The place among `n` items that a signed bound stands for. -/
def place (n : Nat) (bound : Int) : Nat :=
  if bound < 0 then (n + bound).toNat else min bound.toNat n

/-- The items from one signed bound up to another. -/
def slice (xs : List α) (start stop : Int) : List α :=
  (xs.take (place xs.length stop)).drop (place xs.length start)

/-- A bound is never behind the end. -/
theorem place_le (n : Nat) (bound : Int) : place n bound ≤ n := by
  unfold place
  split <;> omega

/-- A slice is as long as its bounds are apart. -/
theorem length_slice (xs : List α) (start stop : Int) :
    (slice xs start stop).length = place xs.length stop - place xs.length start := by
  have h := place_le xs.length stop
  simp only [slice, List.length_drop, List.length_take]
  omega

end Flowchart.Text
