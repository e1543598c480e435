import Flowchart.Fault
import Flowchart.Number.Rounding

/-!
# `Flowchart.Number.Scalar`: whole numbers and doubles

A number keeps the form it was written in: a whole number is exact and
unbounded, any other is a double. Sums, differences and products of whole
numbers stay whole; a quotient never does. A whole number that meets a
double is rounded to the nearest double first, and two numbers of any form
compare by their exact values.
-/

set_option autoImplicit false

namespace Flowchart.Number

/-- A number in the form it was written in. -/
inductive Scalar where
  | int (value : Int)
  | double (value : Float)
deriving Repr

namespace Scalar

/-- The double nearest to a whole number, if the number is in range. -/
def roundInt (n : Int) : Except Fault Float :=
  let x := nearest (n < 0) n.natAbs 1
  if x.isInf then .error .tooLargeForDouble else .ok x

/-- A number as a double. -/
def toDouble : Scalar → Except Fault Float
  | .int n => roundInt n
  | .double x => .ok x

/-- An operation that keeps whole numbers whole. -/
def combine (onInts : Int → Int → Int) (onDoubles : Float → Float → Float) :
    Scalar → Scalar → Except Fault Scalar
  | .int a, .int b => .ok (.int (onInts a b))
  | a, b => do
    let x ← a.toDouble
    let y ← b.toDouble
    .ok (.double (onDoubles x y))

/-- The sum of two numbers. -/
def add : Scalar → Scalar → Except Fault Scalar :=
  combine (· + ·) (· + ·)

/-- The difference of two numbers. -/
def sub : Scalar → Scalar → Except Fault Scalar :=
  combine (· - ·) (· - ·)

/-- The product of two numbers. -/
def mul : Scalar → Scalar → Except Fault Scalar :=
  combine (· * ·) (· * ·)

/-- The quotient of two numbers: a double, rounded once. -/
def div : Scalar → Scalar → Except Fault Scalar
  | .int a, .int b =>
    if b = 0 then .error (.divisionByZero true)
    else
      let x := nearest ((a < 0) != (b < 0)) a.natAbs b.natAbs
      if x.isInf then .error .quotientTooLarge else .ok (.double x)
  | a, b => do
    let x ← a.toDouble
    let y ← b.toDouble
    if y == 0 then .error (.divisionByZero false) else .ok (.double (x / y))

/-- The opposite of a number. -/
def neg : Scalar → Scalar
  | .int n => .int (-n)
  | .double x => .double (-x)

/-- How a whole number compares with a double; nothing compares with a NaN. -/
def compareIntDouble? (n : Int) (x : Float) : Option Ordering :=
  match Binary64.ofFloat x with
  | .nan => none
  | .infinite negative => some (if negative then .gt else .lt)
  | .finite negative mantissa exponent => some (compareFinite n negative mantissa exponent)

/-- How two doubles compare. -/
def compareDoubles? (x y : Float) : Option Ordering :=
  if x < y then some .lt else if x == y then some .eq else if x > y then some .gt else none

/-- How two numbers compare by their exact values. -/
def compare? : Scalar → Scalar → Option Ordering
  | .int a, .int b => some (compare a b)
  | .int a, .double y => compareIntDouble? a y
  | .double x, .int b => (compareIntDouble? b x).map Ordering.swap
  | .double x, .double y => compareDoubles? x y

/-- Whether a relation holds between two numbers. -/
def holds (relation : Relation) (a b : Scalar) : Bool :=
  (compare? a b).any relation.accepts

/-- Whether a number is the double that is no number. -/
def isNaN : Scalar → Bool
  | .int _ => false
  | .double x => x.isNaN

/-- Whether two numbers are the same: equal, or both the double that is no
number. -/
def same (a b : Scalar) : Bool :=
  compare? a b == some .eq || (a.isNaN && b.isNaN)

/-- The whole number that a number equals, if there is one. -/
def whole? : Scalar → Option Int
  | .int n => some n
  | .double x =>
    match Binary64.ofFloat x with
    | .finite negative mantissa exponent =>
      let n := truncate negative mantissa exponent
      if same (.int n) (.double x) then some n else none
    | _ => none

/-- Whether a number is zero. -/
def isZero : Scalar → Bool
  | .int n => n == 0
  | .double x => x == 0

end Scalar

end Flowchart.Number
