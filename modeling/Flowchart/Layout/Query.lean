import Flowchart.Layout.Placement

/-!
# `Flowchart.Layout.Query`: questions about a layout

Which arrows go back up, which box is under a point, and how much room the
layout takes. A box that is drawn later lies on top.
-/

set_option autoImplicit false

namespace Flowchart.Layout

open Arithmetic

variable {ι α : Type} [Arithmetic α]

/-- The row of the last placed box with an id. -/
def rowOf? [DecidableEq ι] (placed : List (Placed ι α)) (id : ι) : Option α :=
  (placed.reverse.find? fun b => b.box.id = id).map Placed.row

/-- Whether an arrow ends in the row it starts in or above. -/
def isBackEdge [DecidableEq ι] (placed : List (Placed ι α)) (arrow : Arrow ι) :
    Except Fault Bool :=
  match rowOf? placed arrow.source, rowOf? placed arrow.target with
  | some source, some target => holds .lessOrEqual target source
  | _, _ => .ok false

/-- The keys of the arrows that go back, sorted and without repetitions. -/
def backEdges [DecidableEq ι] (arrows : List (Arrow ι)) (placed : List (Placed ι α)) :
    Except Fault (List Text) := do
  let back ← arrows.filterM (isBackEdge placed)
  return ((back.map Arrow.key).eraseDups).mergeSort Text.le

/-- The notice that looking for back edges leaves. -/
def backEdgesNotice (arrows : List (Arrow ι)) (found : List Text) : Notice :=
  .backEdgesFound found.length arrows.length

namespace Placed

/-- The right end of a box. -/
def right (b : Placed ι α) : Except Fault α :=
  add b.x b.width

/-- The lower end of a box. -/
def bottom (b : Placed ι α) : Except Fault α :=
  add b.y b.height

/-- Whether a number lies between two ends. The far end is only asked for
behind the near one. -/
def between (low : α) (high : Except Fault α) (value : α) : Except Fault Bool := do
  if ← holds .lessOrEqual low value then
    holds .lessOrEqual value (← high)
  else return false

/-- Whether a point lies in a box, its borders included. -/
def contains (b : Placed ι α) (x y : α) : Except Fault Bool := do
  if ← between b.x b.right x then between b.y b.bottom y else return false

end Placed

/-- The first of the boxes that a point lies in. -/
def firstContaining (x y : α) : List (Placed ι α) → Except Fault (Option (Placed ι α))
  | [] => .ok none
  | b :: rest => do
    if ← b.contains x y then return some b else firstContaining x y rest

/-- The topmost box that a point lies in. -/
def hit? (placed : List (Placed ι α)) (x y : α) : Except Fault (Option (Placed ι α)) :=
  firstContaining x y placed.reverse

/-- How far a layout reaches from the origin, to the right and down. -/
def bounds (placed : List (Placed ι α)) : Except Fault (α × α) :=
  placed.foldlM
    (fun (width, height) b => do
      let width ← larger width (← b.right)
      let height ← larger height (← b.bottom)
      return (width, height))
    (decimal 0 0, decimal 0 0)

end Flowchart.Layout
