import Flowchart.Number.Arithmetic

/-!
# `Flowchart.Number.Exact`: exact lengths

Fractions as lengths. Nothing is rounded and only a division by zero is
refused, so laws of layouts and cameras hold as they stand.
-/

set_option autoImplicit false

namespace Flowchart

/-- Whether a relation holds between two fractions. -/
def Relation.holdsExactly : Relation → Rat → Rat → Bool
  | .less, a, b => decide (a < b)
  | .lessOrEqual, a, b => decide (a ≤ b)
  | .greater, a, b => decide (b < a)

instance : Arithmetic Rat where
  whole n := n
  decimal coefficient places := (coefficient : Rat) / 10 ^ places
  add a b := .ok (a + b)
  sub a b := .ok (a - b)
  mul a b := .ok (a * b)
  div a b := if b = 0 then .error (.divisionByZero false) else .ok (a / b)
  neg a := .ok (-a)
  holds relation a b := .ok (relation.holdsExactly a b)

end Flowchart
