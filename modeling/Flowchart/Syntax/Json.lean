import Flowchart.Json.Basic
import Flowchart.Syntax.Node
import Flowchart.Text.Numeral

/-!
# `Flowchart.Syntax.Json`: syntax trees as JSON

A tree is written with the names `kind`, `start`, `end`, `startPosition`,
`endPosition`, `isNamed` and `children`. Reading is more lenient: the names
`type`, `start_position`, `end_position` and `is_named` do as well where the
first spelling is missing, positions may be pairs, numbers may be anything
that counts as a whole number, and what is missing has a default. Only a
kind that says something has to be there; it is kept as it is. A node is
checked before its children, and the children in order, so the first fault
in pre-order is the one reported.
-/

set_option autoImplicit false

namespace Flowchart

/-- Why a JSON value is no syntax tree. -/
inductive TreeFault where
  /-- A node says no kind; the names it has are listed, sorted. -/
  | missingKind (names : List Text)
  /-- A value of this kind stands for a node. -/
  | notNode (kind : String)
  /-- A value of this kind stands for the children. -/
  | notChildren (kind : String)
  /-- A value of this kind stands for a whole number. -/
  | notWhole (kind : String)
  /-- A text stands for a whole number and is none. -/
  | numeral (fault : Text.NumeralFault)
  /-- An infinite number stands for a whole number. -/
  | infinite
  /-- The double that is no number stands for a whole number. -/
  | notANumber
deriving DecidableEq, Repr

/-- The wording of a fault. -/
def TreeFault.message : TreeFault → Text
  | .missingKind names =>
    "Syntax node without a kind: [" ++ Text.joined ", " (names.map Text.quoted) ++ "]"
  | .notNode kind => "'" ++ kind ++ "' object has no attribute 'get'"
  | .notChildren kind => "'" ++ kind ++ "' object is not iterable"
  | .notWhole kind =>
    "int() argument must be a string, a bytes-like object or a real number, not '" ++ kind ++ "'"
  | .numeral fault => fault.message
  | .infinite => "cannot convert float infinity to integer"
  | .notANumber => "cannot convert float NaN to integer"

namespace Json

/-- The whole number that a value counts as: doubles lose their fraction,
truth values count as one and zero, and texts are read. -/
def toWhole : Json → Except TreeFault Int
  | .number (.int n) => .ok n
  | .bool value => .ok (if value then 1 else 0)
  | .number (.double x) =>
    match Number.Binary64.ofFloat x with
    | .nan => .error .notANumber
    | .infinite _ => .error .infinite
    | .finite negative mantissa exponent => .ok (Number.truncate negative mantissa exponent)
  | .string text => (Text.readWhole text).mapError .numeral
  | value => .error (.notWhole value.kind)

/-- The value of the first of two names that an object has. -/
def Members.first? (members : Members) (name other : Text) : Option Json :=
  (members.lookup name).or (members.lookup other)

/-- The whole number under a name, zero if the name is missing. -/
def Members.whole (members : Members) (name : Text) : Except TreeFault Int :=
  match members.lookup name with
  | some value => value.toWhole
  | none => .ok 0

/-- The position that a value stands for: an object with a row and a column
or a pair. Anything else is the start of the text. -/
def toPosition : Json → Except TreeFault Position
  | .object members => do
    let row ← Members.whole members "row"
    let column ← Members.whole members "column"
    return ⟨row, column⟩
  | .array [row, column] => do
    let row ← row.toWhole
    let column ← column.toWhole
    return ⟨row, column⟩
  | _ => .ok ⟨0, 0⟩

/-- The position under either of two names. -/
def Members.position (members : Members) (name other : Text) : Except TreeFault Position :=
  ((Members.first? members name other).getD .null).toPosition

/-- What is found in an object is smaller than the object. -/
theorem sizeOf_lt_of_lookup {members : Members} {name : Text} {value : Json}
    (h : members.lookup name = some value) : sizeOf value < sizeOf members := by
  induction members with
  | nil => simp at h
  | cons member rest ih =>
    obtain ⟨name', value'⟩ := member
    rw [Members.lookup, List.lookup_cons] at h
    split at h
    · cases h
      simp
      omega
    · have := ih h
      simp
      omega

end Json

namespace NodeInfo

/-- What an object says of a node, its children apart. -/
def ofMembers (members : Json.Members) : Except TreeFault NodeInfo := do
  let kind ← match members.first? "kind" "type" with
    | some kind => if kind.isTruthy then pure kind else missing
    | none => missing
  let start ← members.whole "start"
  let stop ← members.whole "end"
  let startPosition ← members.position "startPosition" "start_position"
  let stopPosition ← members.position "endPosition" "end_position"
  let isNamed := (members.first? "isNamed" "is_named").elim true Json.isTruthy
  return { kind, start, stop, startPosition, stopPosition, isNamed }
where
  /-- The fault of an object that says no kind. -/
  missing : Except TreeFault Json :=
    .error (.missingKind ((members.map Prod.fst).mergeSort Text.le))

end NodeInfo

namespace SyntaxTree

/-- The syntax tree that a JSON value stands for. -/
def ofJson : Json → Except TreeFault SyntaxTree
  | .object members => do
    let info ← NodeInfo.ofMembers members
    let children ← match _h : Json.Members.lookup members "children" with
      | none => .ok []
      | some (.array items) => items.attach.mapM fun ⟨item, _⟩ => ofJson item
      | some value =>
        -- Going through a text or an object gives texts, and a text is no node.
        if value.isTruthy then
          match value with
          | .string _ | .object _ => .error (.notNode "str")
          | value => .error (.notChildren value.kind)
        else .ok []
    return .node info children
  | value => .error (.notNode value.kind)
termination_by value => sizeOf value
decreasing_by
  have h₁ := Json.sizeOf_lt_of_lookup _h
  have h₂ := List.sizeOf_lt_of_mem ‹_ ∈ items›
  simp at h₁ ⊢
  omega

/-- A position as JSON. -/
def positionJson (position : Position) : Json :=
  .object [("row", .int position.row), ("column", .int position.column)]

mutual

/-- A syntax tree as JSON. -/
def toJson : SyntaxTree → Json
  | .node info children =>
    .object [("kind", info.kind), ("start", .int info.start), ("end", .int info.stop),
      ("startPosition", positionJson info.startPosition),
      ("endPosition", positionJson info.stopPosition), ("isNamed", .bool info.isNamed),
      ("children", .array (toJsons children))]

/-- A row of syntax trees as JSON. -/
def toJsons : List SyntaxTree → List Json
  | [] => []
  | t :: ts => toJson t :: toJsons ts

end

end SyntaxTree

end Flowchart
