import Flowchart.Json.Arithmetic
import Flowchart.Metrics.Font

/-!
# `Flowchart.Layout.Style`: fonts, sizes and gaps

How boxes are sized and spaced. A style from the settings takes every value
as it is; whether it can be used shows when it is.
-/

set_option autoImplicit false

namespace Flowchart

/-- The fonts, sizes and gaps of a layout. -/
structure Style (α : Type) where
  font : Json
  smallFont : Json
  paddingX : α
  paddingY : α
  minWidth : α
  maxWidth : α
  gapX : α
  gapY : α
  lineHeight : α
  labelLineHeight : α

namespace Style

/-- The style that the settings start from. -/
def default {α : Type} [Arithmetic α] : Style α where
  font := .string Metrics.blockFont
  smallFont := .string Metrics.smallBlockFont
  paddingX := Arithmetic.whole 16
  paddingY := Arithmetic.whole 10
  minWidth := Arithmetic.whole 100
  maxWidth := Arithmetic.whole 280
  gapX := Arithmetic.whole 60
  gapY := Arithmetic.whole 56
  lineHeight := Arithmetic.whole 16
  labelLineHeight := Arithmetic.whole 14

/-- The members of a style as JSON. -/
def members (style : Style Json) : Json.Members :=
  [("font", style.font), ("small_font", style.smallFont), ("padding_x", style.paddingX),
    ("padding_y", style.paddingY), ("min_width", style.minWidth), ("max_width", style.maxWidth),
    ("gap_x", style.gapX), ("gap_y", style.gapY), ("line_height", style.lineHeight),
    ("label_line_height", style.labelLineHeight)]

/-- A style as JSON. -/
def toJson (style : Style Json) : Json :=
  .object style.members

/-- The style with the members of an object where it has them. -/
def ofMembers (members : Json.Members) : Style Json :=
  let base : Style Json := default
  let setting (name : Text) (value : Json) : Json := (members.lookup name).getD value
  { font := setting "font" base.font
    smallFont := setting "small_font" base.smallFont
    paddingX := setting "padding_x" base.paddingX
    paddingY := setting "padding_y" base.paddingY
    minWidth := setting "min_width" base.minWidth
    maxWidth := setting "max_width" base.maxWidth
    gapX := setting "gap_x" base.gapX
    gapY := setting "gap_y" base.gapY
    lineHeight := setting "line_height" base.lineHeight
    labelLineHeight := setting "label_line_height" base.labelLineHeight }

/-- The style that a value stands for. A value that says nothing changes
nothing, an object sets what it has members for, and no other value will do. -/
def ofJson (value : Json) : Except Fault (Style Json) :=
  if value.isTruthy then
    match value with
    | .object members => .ok (ofMembers members)
    | value => .error (.lacks value.kind "items")
  else .ok default

end Style

end Flowchart
