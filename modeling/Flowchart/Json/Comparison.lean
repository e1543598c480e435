import Flowchart.Fault
import Flowchart.Json.Basic

/-!
# `Flowchart.Json.Comparison`: the order of JSON values

Numbers compare by value, a truth value counting as one or zero, and texts
code point by code point. Lists compare at the first place where their
items differ, or else by their lengths. No other two values have an order.

Whether items differ is a question of its own, which every two values
answer: objects are the same in any order of their members, and the double
that is no number is the same as itself.
-/

set_option autoImplicit false

namespace Flowchart.Json

open Number (Scalar)

/-- Whether a value counts as a number. -/
def countsAs (value : Json) (number : Scalar) : Bool :=
  value.scalar?.any number.same

mutual

/-- Whether two values are the same. -/
def equal : Json → Json → Bool
  | .null, other => match other with
    | .null => true
    | _ => false
  | .string text, other => match other with
    | .string text' => text == text'
    | _ => false
  | .array items, other => match other with
    | .array items' => equalItems items items'
    | _ => false
  | .object members, other => match other with
    | .object members' => members.length == members'.length && equalMembers members members'
    | _ => false
  -- Truth values count as 0 and 1.
  | .bool value, other => other.countsAs (.int (if value then 1 else 0))
  | .number value, other => other.countsAs value

/-- Whether two lists have the same items. -/
def equalItems : List Json → List Json → Bool
  | [], [] => true
  | item :: items, item' :: items' => equal item item' && equalItems items items'
  | _, _ => false

/-- Whether another object has the same values under the names of some
members. -/
def equalMembers : Members → Members → Bool
  | [], _ => true
  | (name, value) :: members, others =>
    (match Members.lookup others name with
      | some value' => equal value value'
      | none => false) && equalMembers members others

end

mutual

/-- Whether a relation holds between two values. -/
def holds (relation : Relation) : Json → Json → Except Fault Bool
  | .array items, other => match other with
    | .array items' => holdsItems relation items items'
    | other => .error (.incomparable relation "list" other.kind)
  | .string text, other => match other with
    | .string text' => .ok (relation.accepts (text.order text'))
    | other => .error (.incomparable relation "str" other.kind)
  | value, other =>
    match value.scalar?, other.scalar? with
    | some x, some y => .ok (Scalar.holds relation x y)
    | _, _ => .error (.incomparable relation value.kind other.kind)

/-- Whether a relation holds between two lists. -/
def holdsItems (relation : Relation) : List Json → List Json → Except Fault Bool
  | [], others => .ok (relation.accepts (if others.isEmpty then .eq else .lt))
  | _ :: _, [] => .ok (relation.accepts .gt)
  | item :: items, item' :: items' =>
    if equal item item' then holdsItems relation items items' else holds relation item item'

end

end Flowchart.Json
