import Flowchart.Json.Arithmetic
import Flowchart.Layout.Query

/-!
# `Flowchart.Layout.Json`: layouts as JSON

Placed boxes as objects with a fixed order of members, and the report of a
whole layout: its boxes, its arrows, those that go back, and the room that
all of it takes.
-/

set_option autoImplicit false

namespace Flowchart.Layout

variable {ι : Type}

/-- A placed box as JSON. -/
def Placed.toJson (b : Placed ι Json) : Json :=
  .object [("id", b.box.name), ("x", b.x), ("y", b.y), ("width", b.width),
    ("height", b.height), ("column", b.column), ("row", b.row), ("block", b.box.json)]

/-- The layout of a diagram as JSON. -/
def report (diagram : Diagram ι) (placed : List (Placed ι Json)) (backEdges : List Text)
    (extent : Json × Json) : Json :=
  .object [("blocks", .array (placed.map Placed.toJson)),
    ("edges", .array (diagram.arrows.map Arrow.json)),
    ("back_edges", .array (backEdges.map .string)),
    ("bounds", .object [("width", extent.1), ("height", extent.2)])]

end Flowchart.Layout
