import Flowchart.Number.Arithmetic

/-!
# `Flowchart.Layout.Camera`: looking at a layout

A camera shows the world point `w` at the screen point `w * zoom + offset`.
Zooming keeps the world point under the cursor where it is. Fitting a layout
into a viewport never magnifies it; the layout is centred across and starts
below a padding at the top.
-/

set_option autoImplicit false

namespace Flowchart

open Arithmetic

/-- An offset on the screen and a zoom. -/
structure Camera (α : Type) where
  x : α
  y : α
  zoom : α

namespace Camera

variable {α : Type} [Arithmetic α]

/-- The camera that shows the world as it is. -/
def initial : Camera α :=
  ⟨decimal 0 0, decimal 0 0, decimal 1 0⟩

/-- The least zoom that zooming leads to. -/
def minZoom : α :=
  decimal 1 1

/-- The greatest zoom that zooming leads to. -/
def maxZoom : α :=
  decimal 3 0

/-- The world point at a screen point. -/
def toWorld (camera : Camera α) (x y : α) : Except Fault (α × α) := do
  let worldX ← div (← sub x camera.x) camera.zoom
  let worldY ← div (← sub y camera.y) camera.zoom
  return (worldX, worldY)

/-- The screen point of a world point. -/
def toScreen (camera : Camera α) (x y : α) : Except Fault (α × α) := do
  let screenX ← add (← mul x camera.zoom) camera.x
  let screenY ← add (← mul y camera.zoom) camera.y
  return (screenX, screenY)

/-- The zoom after zooming by a factor, within its limits. -/
def zoomAfter (camera : Camera α) (factor : α) : Except Fault α := do
  let wanted ← mul camera.zoom factor
  let enough ← larger minZoom wanted
  smaller maxZoom enough

/-- The camera zoomed by a factor around a screen point. -/
def zoomedAt (camera : Camera α) (x y factor : α) : Except Fault (Camera α) := do
  let zoom ← zoomAfter camera factor
  let (worldX, worldY) ← camera.toWorld x y
  let offsetX ← sub x (← mul worldX zoom)
  let offsetY ← sub y (← mul worldY zoom)
  return ⟨offsetX, offsetY, zoom⟩

/-- The zoom at which a length fits between two paddings. A length below one
counts as one. -/
def fittingZoom (viewport length padding : α) : Except Fault α := do
  let room ← sub viewport (← mul padding (whole 2))
  div room (← larger (decimal 1 0) length)

/-- The camera that fits a layout into a viewport. A viewport without room
leaves the camera as it starts. -/
def fit (bounds : α × α) (width height padding : α) : Except Fault (Camera α) := do
  if ← holds .lessOrEqual width (whole 0) then return initial
  if ← holds .lessOrEqual height (whole 0) then return initial
  let zoomX ← fittingZoom width bounds.1 padding
  let zoomY ← fittingZoom height bounds.2 padding
  let zoom ← smallest (decimal 1 0) [zoomX, zoomY]
  let x ← div (← sub width (← mul bounds.1 zoom)) (whole 2)
  return ⟨x, padding, zoom⟩

/-- The padding of a layout that is fitted into a viewport. -/
def fitPadding : α :=
  whole 60

end Camera

end Flowchart
