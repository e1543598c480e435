import Flowchart.Fault
import Flowchart.Json.Basic

/-!
# `Flowchart.Json.Items`: what a value consists of

A text consists of its code points, a list of its items and an object of the
names of its members. Nothing else has items or a length.
-/

set_option autoImplicit false

namespace Flowchart.Json

/-- What a value consists of. -/
def items : Json → Except Fault (List Json)
  | .string text => .ok (text.map fun c => .string [c])
  | .array items => .ok items
  | .object members => .ok (members.map fun member => .string member.1)
  | value => .error (.notIterable value.kind)

/-- How much a value consists of. -/
def length : Json → Except Fault Nat
  | .string text => .ok text.length
  | .array items => .ok items.length
  | .object members => .ok members.length
  | value => .error (.noLength value.kind)

end Flowchart.Json
