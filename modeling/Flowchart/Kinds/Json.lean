import Flowchart.Kinds.Table

/-!
# `Flowchart.Kinds.Json`: kind tables as JSON

A table is an object with the kinds of each role, in a fixed order of roles
and the kinds sorted. Names are always in order; other values are sorted
where they can be compared.
-/

set_option autoImplicit false

namespace Flowchart

/-- The kinds of a set, sorted. -/
def KindSet.sorted (set : KindSet) : List Json :=
  (set.toList.map Json.Key.toJson).mergeSort fun a b => (Json.holds .less b a).toOption != some true

/-- Why the kinds of a set cannot be sorted, if they cannot. -/
def KindSet.sortFault? (set : KindSet) : Option Fault :=
  let kinds := set.toList.map Json.Key.toJson
  (kinds.zip kinds.tail).findSome? fun (kind, next) =>
    match Json.holds .less next kind with
    | .ok _ => none
    | .error fault => some fault

/-- A kind table as JSON. -/
def KindTable.toJson (table : KindTable) : Json :=
  .object (Role.all.map fun role => ((role.name : Text), .array (table.kinds role).sorted))

/-- Why the kinds of a table cannot be sorted, if they cannot. -/
def KindTable.sortFault? (table : KindTable) : Option Fault :=
  Role.all.findSome? fun role => (table.kinds role).sortFault?

end Flowchart
