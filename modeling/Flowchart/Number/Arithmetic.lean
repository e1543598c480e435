import Flowchart.Fault

/-!
# `Flowchart.Number.Arithmetic`: what a layout needs of its lengths

Layouts and cameras are computed over any type of lengths that has these
operations: the numbers of a settings file, which may turn out to be no
numbers at all, and the exact fractions, where only a division by zero is
refused. Constants are whole or decimal, since the two may behave
differently.

- `larger`, `smaller`: of two lengths, the first among equals;
- `largest`, `smallest`, `total`: the same over a row.
-/

set_option autoImplicit false

namespace Flowchart

/-- The operations of lengths. Each one may refuse its operands. -/
class Arithmetic (α : Type) where
  /-- A whole constant. -/
  whole : Int → α
  /-- The constant `coefficient / 10 ^ places`. -/
  decimal : (coefficient : Int) → (places : Nat) → α
  add : α → α → Except Fault α
  sub : α → α → Except Fault α
  mul : α → α → Except Fault α
  div : α → α → Except Fault α
  neg : α → Except Fault α
  holds : Relation → α → α → Except Fault Bool

namespace Arithmetic

variable {α : Type} [Arithmetic α]

/-- The larger of two lengths; the first if neither is larger. -/
def larger (a b : α) : Except Fault α := do
  return if ← holds .greater b a then b else a

/-- The smaller of two lengths; the first if neither is smaller. -/
def smaller (a b : α) : Except Fault α := do
  return if ← holds .less b a then b else a

/-- The largest of one or more lengths. -/
def largest (first : α) (rest : List α) : Except Fault α :=
  rest.foldlM larger first

/-- The smallest of one or more lengths. -/
def smallest (first : α) (rest : List α) : Except Fault α :=
  rest.foldlM smaller first

/-- The sum of lengths, added from the left to a whole zero. -/
def total (lengths : List α) : Except Fault α :=
  lengths.foldlM add (whole 0)

end Arithmetic

end Flowchart
