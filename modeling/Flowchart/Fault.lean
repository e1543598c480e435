import Flowchart.Text.CodePoint

/-!
# `Flowchart.Fault`: what goes wrong with a value

Settings come from JSON and may hold any value. A value of the wrong kind
is found where it is used, and the fault says which operation refused it.
Kinds of values are named in messages by their short names (`int`, `str`,
`list` and so on).

- `Fault.message`: the wording of each fault.
-/

set_option autoImplicit false

namespace Flowchart

/-- The order relations that values are asked for. -/
inductive Relation where
  | less
  | lessOrEqual
  | greater
deriving DecidableEq, Repr

/-- The sign of an order relation. -/
def Relation.sign : Relation → String
  | .less => "<"
  | .lessOrEqual => "<="
  | .greater => ">"

/-- Whether a comparison satisfies the relation. -/
def Relation.accepts : Relation → Ordering → Bool
  | .less, .lt => true
  | .lessOrEqual, .lt => true
  | .lessOrEqual, .eq => true
  | .greater, .gt => true
  | _, _ => false

/-- Why an operation on values has no result. -/
inductive Fault where
  /-- A division by zero among whole numbers, or with a double. -/
  | divisionByZero (whole : Bool)
  /-- A whole number beyond the range of a double. -/
  | tooLargeForDouble
  /-- A quotient of whole numbers beyond the range of a double. -/
  | quotientTooLarge
  /-- No such operation between values of these kinds. -/
  | badOperands (sign left right : String)
  /-- No such operation on a value of this kind. -/
  | badOperand (sign kind : String)
  /-- A text or list can only be joined with its like. -/
  | badJoin (sequence other : String)
  /-- A text or list can only be repeated a whole number of times. -/
  | badRepetition (kind : String)
  /-- A text or list is repeated more often than can be counted. -/
  | uncountable
  /-- A text is repeated until it is longer than can be counted. -/
  | textTooLong
  /-- A text or list is repeated until there is no room for it. -/
  | outOfMemory
  /-- Values of these kinds have no order. -/
  | incomparable (relation : Relation) (left right : String)
  /-- A text is wanted and a value of this kind is there. -/
  | notText (kind : String)
  /-- A line can only be cut after a whole number of characters. -/
  | badCut
  /-- A value of this kind has nothing of the name that is asked for. -/
  | lacks (kind name : String)
  /-- A value of this kind cannot be looked up in a table. -/
  | notKey (kind : String)
  /-- A value of this kind has no items. -/
  | notIterable (kind : String)
  /-- A value of this kind has no length. -/
  | noLength (kind : String)
  /-- One character is wanted and a text of another length is there. -/
  | notOneCharacter (length : Nat)
  /-- One character is wanted and a value of this kind is there. -/
  | notCharacter (kind : String)
deriving DecidableEq, Repr

/-- The wording of a fault. -/
def Fault.message : Fault → Text
  | .divisionByZero true => "division by zero"
  | .divisionByZero false => "float division by zero"
  | .tooLargeForDouble => "int too large to convert to float"
  | .quotientTooLarge => "integer division result too large for a float"
  | .badOperands sign left right =>
    "unsupported operand type(s) for " ++ sign ++ ": '" ++ left ++ "' and '" ++ right ++ "'"
  | .badOperand sign kind => "bad operand type for unary " ++ sign ++ ": '" ++ kind ++ "'"
  | .badJoin sequence other =>
    "can only concatenate " ++ sequence ++ " (not \"" ++ other ++ "\") to " ++ sequence
  | .badRepetition kind => "can't multiply sequence by non-int of type '" ++ kind ++ "'"
  | .uncountable => "cannot fit 'int' into an index-sized integer"
  | .textTooLong => "repeated string is too long"
  -- Running out of memory is reported with no text.
  | .outOfMemory => ""
  | .incomparable relation left right =>
    "'" ++ relation.sign ++ "' not supported between instances of '" ++ left ++ "' and '" ++
      right ++ "'"
  | .notText kind => "expected string or bytes-like object, got '" ++ kind ++ "'"
  | .badCut => "slice indices must be integers or None or have an __index__ method"
  | .lacks kind name => "'" ++ kind ++ "' object has no attribute '" ++ name ++ "'"
  | .notKey kind => "unhashable type: '" ++ kind ++ "'"
  | .notIterable kind => "'" ++ kind ++ "' object is not iterable"
  | .noLength kind => "object of type '" ++ kind ++ "' has no len()"
  | .notOneCharacter length =>
    "ord() expected a character, but string of length " ++ toString length ++ " found"
  | .notCharacter kind => "ord() expected string of length 1, but " ++ kind ++ " found"

end Flowchart
