import Flowchart.Json.Comparison
import Flowchart.Number.Arithmetic

/-!
# `Flowchart.Json.Arithmetic`: JSON values as lengths

Lengths from a settings file. Numbers are computed with as numbers, and
truth values count as one and zero. Texts and lists can be joined with their
like and repeated a whole number of times, as long as there is room for the
result, so such a value is not always refused by the first operation that
meets it; every other use of a value that is no number is refused, with the
kinds of both operands.
-/

set_option autoImplicit false

namespace Flowchart.Json

open Number (Scalar)

/-- The fault of an operation that does not exist between two values. -/
def badOperands {α : Type} (sign : String) (a b : Json) : Except Fault α :=
  .error (.badOperands sign a.kind b.kind)

/-- The sum of two values. -/
def add (a b : Json) : Except Fault Json :=
  match a.scalar?, b.scalar? with
  | some x, some y => (x.add y).map .number
  | _, _ =>
    match a, b with
    | .string s, .string t => .ok (.string (s ++ t))
    | .array xs, .array ys => .ok (.array (xs ++ ys))
    | .string _, _ | .array _, _ => .error (.badJoin a.kind b.kind)
    | _, _ => badOperands "+" a b

/-- The difference of two values. -/
def sub (a b : Json) : Except Fault Json :=
  match a.scalar?, b.scalar? with
  | some x, some y => (x.sub y).map .number
  | _, _ => badOperands "-" a b

/-- One more than the greatest number that a machine word counts to. -/
def wordLimit : Nat :=
  Number.twoPow 63

/-- The most items or code points that there can be room for. -/
def roomLimit : Nat :=
  Number.twoPow 37

/-- A text or list, repeated. -/
def repeated? (count : Int) : Json → Except Fault Json
  | .string text =>
    let length := text.length * count.toNat
    if length ≥ wordLimit then .error .textTooLong
    else if length > roomLimit then .error .outOfMemory
    else if length = 0 then .ok (.string [])
    else .ok (.string (List.replicate count.toNat text).flatten)
  | .array items =>
    let length := items.length * count.toNat
    if length > roomLimit then .error .outOfMemory
    else if length = 0 then .ok (.array [])
    else .ok (.array (List.replicate count.toNat items).flatten)
  | value => .ok value

/-- Whether a value is a text or a list. -/
def isSequence : Json → Bool
  | .string _ | .array _ => true
  | _ => false

/-- A text or list times another value. -/
def repetition (sequence count : Json) : Except Fault Json :=
  match count.scalar? with
  | some (.int n) =>
    if n ≥ wordLimit || n < -(wordLimit : Int) then .error .uncountable
    else sequence.repeated? n
  | _ => .error (.badRepetition count.kind)

/-- The product of two values. -/
def mul (a b : Json) : Except Fault Json :=
  match a.scalar?, b.scalar? with
  | some x, some y => (x.mul y).map .number
  | _, _ =>
    if a.isSequence then repetition a b
    else if b.isSequence then repetition b a
    else badOperands "*" a b

/-- The quotient of two values. -/
def div (a b : Json) : Except Fault Json :=
  match a.scalar?, b.scalar? with
  | some x, some y => (x.div y).map .number
  | _, _ => badOperands "/" a b

/-- The opposite of a value. -/
def neg (a : Json) : Except Fault Json :=
  match a.scalar? with
  | some x => .ok (.number x.neg)
  | none => .error (.badOperand "-" a.kind)

instance : Arithmetic Json where
  whole := int
  decimal coefficient places :=
    double (Number.nearestDecimal (coefficient < 0) coefficient.natAbs (-(places : Int)))
  add := add
  sub := sub
  mul := mul
  div := div
  neg := neg
  holds := holds

end Flowchart.Json
