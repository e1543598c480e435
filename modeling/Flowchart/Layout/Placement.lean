import Flowchart.Layout.Ordering
import Flowchart.Layout.Style
import Flowchart.Notice

/-!
# `Flowchart.Layout.Placement`: sizes and coordinates

A box is as wide as the widest of its texts with padding on both sides,
within the limits of the style, and as high as its lines. The boxes of a row
stand side by side with gaps between them, and every row is centred on one
axis. Each row starts a gap below the tallest box of the row above. In the
end everything is shifted so that the leftmost box starts at zero.
-/

set_option autoImplicit false

namespace Flowchart.Layout

open Arithmetic

variable {ι α : Type} [Arithmetic α]

/-- How texts are measured: the width of a value that stands for a text, in a
font. -/
abbrev Measure (α : Type) := Json → Json → Except Fault α

/-- A box with its place. Its row and column are whole numbers where a layout
put it there. -/
structure Placed (ι α : Type) where
  box : Box ι
  x : α
  y : α
  width : α
  height : α
  /-- The position within the row. -/
  column : α
  /-- The layer. -/
  row : α

/-- A box with its size. -/
structure Sized (ι α : Type) where
  box : Box ι
  width : α
  height : α

/-- The width of a box. -/
def boxWidth (measure : Measure α) (style : Style α) (box : Box ι) : Except Fault α := do
  let label ← measure box.label style.font
  let lines ← box.lines.mapM fun line => measure line style.smallFont
  let text ← largest label lines
  let padding ← mul style.paddingX (whole 2)
  let padded ← add text padding
  let wide ← larger style.minWidth padded
  smaller style.maxWidth wide

/-- The height of the lines below the label. -/
def linesHeight (style : Style α) (box : Box ι) : Except Fault α :=
  if box.lines.isEmpty then .ok (decimal 0 0)
  else do
    let lines ← mul (whole box.lines.length) style.lineHeight
    add lines (whole 4)

/-- The height of a box. -/
def boxHeight (style : Style α) (box : Box ι) : Except Fault α := do
  let lines ← linesHeight style box
  let padding ← mul style.paddingY (whole 2)
  let label ← add padding style.labelLineHeight
  add label lines

/-- A box with its size. -/
def sized (measure : Measure α) (style : Style α) (box : Box ι) : Except Fault (Sized ι α) := do
  let width ← boxWidth measure style box
  let height ← boxHeight style box
  return ⟨box, width, height⟩

/-- The width of a row: its boxes and the gaps between them. -/
def rowWidth (style : Style α) (boxes : List (Sized ι α)) : Except Fault α := do
  let widths ← total (boxes.map Sized.width)
  let gaps ← mul (whole ((boxes.length : Int) - 1)) style.gapX
  add widths gaps

/-- Boxes side by side from a place on. -/
def placeFrom (style : Style α) (row : Nat) (y : α) : (column : Nat) → (x : α) →
    List (Sized ι α) → Except Fault (List (Placed ι α))
  | _, _, [] => .ok []
  | column, x, b :: rest => do
    let advance ← add b.width style.gapX
    let next ← add x advance
    let placed ← placeFrom style row y (column + 1) next rest
    return ⟨b.box, x, y, b.width, b.height, whole column, whole row⟩ :: placed

/-- The rows one below the other from a place on. -/
def placeRows (measure : Measure α) (style : Style α) : (y : α) → List (Row ι) →
    Except Fault (List (Placed ι α))
  | _, [] => .ok []
  | y, row :: rest => do
    let boxes ← row.boxes.mapM (sized measure style)
    match boxes with
    -- A row without boxes takes no room.
    | [] => placeRows measure style y rest
    | first :: others =>
      let tallest ← largest first.height (others.map Sized.height)
      let width ← rowWidth style (first :: others)
      let opposite ← neg width
      let x ← div opposite (whole 2)
      let placed ← placeFrom style row.layer y 0 x (first :: others)
      let drop ← add tallest style.gapY
      let next ← add y drop
      let below ← placeRows measure style next rest
      return placed ++ below

/-- Boxes shifted so that the leftmost one starts at zero. -/
def shiftToZero : List (Placed ι α) → Except Fault (List (Placed ι α))
  | [] => .ok []
  | first :: rest => do
    let left ← smallest first.x (rest.map Placed.x)
    (first :: rest).mapM fun b => do
      let x ← sub b.x left
      return { b with x }

/-- The boxes of a diagram in their places, row by row. -/
def place [DecidableEq ι] (measure : Measure α) (style : Style α) (diagram : Diagram ι) :
    Except Fault (List (Placed ι α)) := do
  let placed ← placeRows measure style (decimal 0 0) (orderedRows diagram)
  shiftToZero placed

/-- The notice that a layout leaves, unless there was nothing to lay out. -/
def notices [DecidableEq ι] (diagram : Diagram ι) : List Notice :=
  if diagram.boxes.isEmpty then []
  else [.laidOut diagram.boxes.length (orderedRows diagram).length]

end Flowchart.Layout
