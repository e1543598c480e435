import Flowchart.Number.Scalar
import Flowchart.Text.CodePoint

/-!
# `Flowchart.Json.Basic`: JSON values

A JSON value keeps what its text said: numbers keep their form, and an
object keeps the order of its members. No two members of an object that was
read or built with `put` have the same name.

- `lookup_put_self`, `lookup_put_of_ne`: what a member that was put reads as;
- `keys_put`: a name that was there keeps its place.
-/

set_option autoImplicit false

namespace Flowchart

open Number (Scalar)

/-- A JSON value. -/
inductive Json where
  | null
  | bool (value : Bool)
  | number (value : Scalar)
  | string (value : Text)
  | array (items : List Json)
  | object (members : List (Text × Json))
deriving Inhabited

namespace Json

/-- The members of an object, in order. -/
abbrev Members := List (Text × Json)

/-- A whole number. -/
def int (n : Int) : Json :=
  .number (.int n)

/-- A double. -/
def double (x : Float) : Json :=
  .number (.double x)

/-- The short name of a value's kind. -/
def kind : Json → String
  | .null => "NoneType"
  | .bool _ => "bool"
  | .number (.int _) => "int"
  | .number (.double _) => "float"
  | .string _ => "str"
  | .array _ => "list"
  | .object _ => "dict"

/-- Whether a value says something: null, `false`, zero and whatever is empty
say nothing. -/
def isTruthy : Json → Bool
  | .null => false
  | .bool value => value
  | .number value => !value.isZero
  | .string value => !value.isEmpty
  | .array items => !items.isEmpty
  | .object members => !members.isEmpty

/-- Whether a value can be looked up in a table: lists and objects cannot. -/
def isKey : Json → Bool
  | .array _ | .object _ => false
  | _ => true

/-- The number that a value counts as: truth values count as one and zero. -/
def scalar? : Json → Option Scalar
  | .number value => some value
  | .bool value => some (.int (if value then 1 else 0))
  | _ => none

namespace Members

/-- The value of the member with a name. -/
abbrev lookup (members : Members) (name : Text) : Option Json :=
  List.lookup name members

/-- Sets a member. A new name goes to the end, a known one keeps its place. -/
def put : Members → Text → Json → Members
  | [], name, value => [(name, value)]
  | (name', value') :: rest, name, value =>
    if name == name' then (name', value) :: rest else (name', value') :: put rest name value

/-- Sets the members of one object in another, in order. -/
def putAll (members additions : Members) : Members :=
  additions.foldl (fun members member => put members member.1 member.2) members

/-- What is put under a name is found there. -/
@[simp]
theorem lookup_put_self (members : Members) (name : Text) (value : Json) :
    lookup (put members name value) name = some value := by
  induction members with
  | nil => simp [put]
  | cons member rest ih =>
    obtain ⟨name', value'⟩ := member
    by_cases h : name = name'
    · simp [put, h]
    · have hb : (name == name') = false := by simpa using h
      simpa [put, List.lookup_cons, hb] using ih

/-- What is put under a name changes no other one. -/
theorem lookup_put_of_ne {name other : Text} (members : Members) (value : Json)
    (h : other ≠ name) : lookup (put members name value) other = lookup members other := by
  induction members with
  | nil =>
    have hb : (other == name) = false := by simpa using h
    simp [put, List.lookup_cons, hb]
  | cons member rest ih =>
    obtain ⟨name', value'⟩ := member
    by_cases hn : name = name'
    · subst hn
      have hb : (other == name) = false := by simpa using h
      simp [put, List.lookup_cons, hb]
    · have := ih
      simp_all [put, List.lookup_cons]

/-- The names after a member is set. -/
theorem keys_put (members : Members) (name : Text) (value : Json) :
    (put members name value).map Prod.fst =
      if name ∈ members.map Prod.fst then members.map Prod.fst
      else members.map Prod.fst ++ [name] := by
  induction members with
  | nil => simp [put]
  | cons member rest ih =>
    obtain ⟨name', value'⟩ := member
    by_cases hn : name = name'
    · simp [put, hn]
    · simp only [put, beq_iff_eq, hn, ite_false, List.map_cons, ih, List.mem_cons, false_or]
      split <;> simp

end Members

end Json

end Flowchart
