import Flowchart.Layout.Layering
import Flowchart.Number.Rounding

/-!
# `Flowchart.Layout.Ordering`: the order of boxes within a layer

Boxes of one layer form a row. From the second row on, the boxes of a row
are sorted by the mean position of their predecessors in the row above, from
the top down; a predecessor elsewhere counts as position 0, and so does the
lack of any. A predecessor that several arrows come from counts once for each.
A mean is a double, rounded once; boxes with the same one keep their order.
-/

set_option autoImplicit false

namespace Flowchart.Layout

variable {ι : Type} [DecidableEq ι]

/-- The boxes of one layer, from left to right. -/
structure Row (ι : Type) where
  layer : Nat
  boxes : List (Box ι)

/-- The layer of a box, 0 if it has none. -/
def layerOf (layers : Layers ι) (id : ι) : Nat :=
  (layers.lookup id).getD 0

omit [DecidableEq ι] in
/-- The boxes of a layer, in order, if it has any. -/
def row? (layered : List (Nat × Box ι)) (layer : Nat) : Option (Row ι) :=
  match (layered.filter fun entry => entry.1 == layer).map Prod.snd with
  | [] => none
  | inRow => some ⟨layer, inRow⟩

/-- The rows that have boxes, from the top down, each in the order in which
the boxes were made. -/
def rows (boxes : List (Box ι)) (layers : Layers ι) : List (Row ι) :=
  let layered := boxes.map fun box => (layerOf layers box.id, box)
  let lowest := (layered.map Prod.fst).foldl max 0
  (List.range (lowest + 1)).filterMap (row? layered)

/-- The position of an id in a row; of several boxes with the id the last one
counts. -/
def position? (row : List (Box ι)) (id : ι) : Option Nat :=
  (row.zipIdx.filter fun entry => entry.1.id = id).getLast?.map Prod.snd

/-- The sum of the positions of ids in a row. -/
def positionSum (row : List (Box ι)) : List ι → Nat
  | [] => 0
  | id :: ids => (position? row id).getD 0 + positionSum row ids

/-- The double nearest to the mean position of predecessors in the row above, by
its bits. It is less than the number of boxes in that row, and so in range. -/
def barycenter (above : List (Box ι)) (predecessors : List ι) : Nat :=
  if predecessors.isEmpty then 0
  else Number.nearestBits (positionSum above predecessors) predecessors.length

/-- A row sorted by the mean positions of the predecessors of its boxes. -/
def sortRow (predecessors : ι → List ι) (above boxes : List (Box ι)) : List (Box ι) :=
  let weighed := boxes.map fun box => (barycenter above (predecessors box.id), box)
  (weighed.mergeSort fun a b => decide (a.1 ≤ b.1)).map Prod.snd

/-- Rows sorted one after the other below a row that is. -/
def sortBelow (predecessors : ι → List ι) (above : List (Box ι)) : List (Row ι) → List (Row ι)
  | [] => []
  | row :: rest =>
    let boxes := sortRow predecessors above row.boxes
    ⟨row.layer, boxes⟩ :: sortBelow predecessors boxes rest

/-- Rows sorted from the top down, the first one left as it is. -/
def sortRows (predecessors : ι → List ι) : List (Row ι) → List (Row ι)
  | [] => []
  | first :: rest => first :: sortBelow predecessors first.boxes rest

/-- The rows of a diagram, in their final order. -/
def orderedRows (diagram : Diagram ι) : List (Row ι) :=
  let p := predecessorsOf diagram
  sortRows (fun id => (p.of id).map Subtype.val) (rows diagram.boxes (assign p))

end Flowchart.Layout
