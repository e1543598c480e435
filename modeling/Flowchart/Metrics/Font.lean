import Flowchart.Json.Items
import Flowchart.Metrics.Cells
import Flowchart.Text.DecimalDigit

/-!
# `Flowchart.Metrics.Font`: font sizes and text widths

A font is described by a shorthand such as `12px monospace`. Its size is the
first number in it that stands directly in front of `px`: digits of any
script, with at most one fraction. A font without one has the default size.
Texts are measured as if the font were monospace, each cell being six tenths
of the size wide.
-/

set_option autoImplicit false

namespace Flowchart.Metrics

open Number (nearestDecimal)

/-- The font of block labels. -/
def blockFont : Text :=
  "12px \"SF Mono\", \"Cascadia Code\", \"Fira Code\", Consolas, monospace"

/-- The font of the lines below a label. -/
def smallBlockFont : Text :=
  "10px \"SF Mono\", \"Cascadia Code\", \"Fira Code\", Consolas, monospace"

/-- The digits of a size in front of the point and behind it. -/
structure PixelSize where
  whole : Text
  fraction : Text
deriving DecidableEq, Repr

/-- Whether a text goes on with the unit of pixels. -/
def startsWithUnit (text : Text) : Bool :=
  List.isPrefixOf (Text.ofString "px") text

/-- The size at the very front of a text. -/
def sizeAtFront? (text : Text) : Option PixelSize :=
  let whole := text.takeWhile Text.isDigit
  let rest := text.dropWhile Text.isDigit
  if whole.isEmpty then none
  else if startsWithUnit rest then some ⟨whole, []⟩
  else
    match rest with
    | [] => none
    | point :: rest =>
      let fraction := rest.takeWhile Text.isDigit
      if point == '.' && !fraction.isEmpty && startsWithUnit (rest.dropWhile Text.isDigit) then
        some ⟨whole, fraction⟩
      else none

/-- The first size in a text. -/
def firstSize? : Text → Option PixelSize
  | [] => none
  | c :: cs => (sizeAtFront? (c :: cs)).or (firstSize? cs)

/-- The number that digits of any script stand for. -/
def digitsValue (digits : Text) : Nat :=
  digits.foldl (fun n c => n * 10 + (Text.digitValue? c).getD 0) 0

/-- A size as a double. -/
def PixelSize.toDouble (size : PixelSize) : Float :=
  nearestDecimal false (digitsValue (size.whole ++ size.fraction)) (-(size.fraction.length : Int))

/-- The size of a font. -/
def fontSize (font : Text) : Float :=
  ((firstSize? font).map PixelSize.toDouble).getD (nearestDecimal false 12 0)

/-- The size of a font from the settings. A setting that says nothing is a
font without a size. -/
def fontSizeOf (font : Json) : Except Fault Float :=
  if font.isTruthy then
    match font with
    | .string font => .ok (fontSize font)
    | font => .error (.notText font.kind)
  else .ok (fontSize [])

/-- The width of a number of cells in a font. -/
def cellsWidth (count : Nat) (font : Json) : Except Fault Json := do
  let size ← fontSizeOf font
  return .double (Number.nearest false count 1 * size * nearestDecimal false 6 (-1))

/-- The width of a text in a font, character by character. Any other value
stands for the characters that it consists of, and one that says nothing has
no width, whatever the font. -/
def widthOf (value font : Json) : Except Fault Json :=
  if value.isTruthy then do
    let cells ← (← value.items).mapM cellsOf
    cellsWidth (cells.foldl (· + ·) 0) font
  else .ok (.double (nearestDecimal false 0 0))

end Flowchart.Metrics
