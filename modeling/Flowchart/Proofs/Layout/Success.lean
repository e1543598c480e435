import Mathlib.Algebra.Module.Submodule.Lattice
import Mathlib.Algebra.Order.Ring.Rat
import Mathlib.Computability.Primrec.List
import Mathlib.Data.List.Permutation
import Flowchart.Number.Exact
import Flowchart.Proofs.Layout.Rows

/-!
# `Flowchart.Proofs.Layout.Success`: when there is a layout

A layout can fail where a text cannot be measured and where an operation
refuses its lengths. Exact fractions refuse nothing but a division by zero,
and a layout divides by two only. So there is a layout over fractions, in any
style, once the texts of the boxes can be measured.

* `NeverRefuses`: lengths that every step of a layout can be done with;
* `Measured`: the texts of a diagram can be measured;
* `exists_place`: there is a layout.

The layouts of samples are run by `cbv`, with the equations that Mathlib has for
`List.lookup`, `Prod.snd` and `≤`.
-/

set_option autoImplicit false

namespace Flowchart

open Arithmetic

/-- Lengths that every step of a layout can be done with. -/
class NeverRefuses (α : Type) [Arithmetic α] : Prop where
  add : ∀ a b : α, Succeeds (add a b)
  sub : ∀ a b : α, Succeeds (sub a b)
  mul : ∀ a b : α, Succeeds (mul a b)
  neg : ∀ a : α, Succeeds (neg a)
  halve : ∀ a : α, Succeeds (div a (whole 2))
  holds : ∀ (relation : Relation) (a b : α), Succeeds (holds relation a b)

instance : NeverRefuses Rat where
  add a b := ⟨a + b, rfl⟩
  sub a b := ⟨a - b, rfl⟩
  mul a b := ⟨a * b, rfl⟩
  neg a := ⟨-a, rfl⟩
  halve a := ⟨a / 2, if_neg (by decide)⟩
  holds relation a b := ⟨relation.holdsExactly a b, rfl⟩

namespace Layout

variable {ι α : Type} [Arithmetic α] {measure : Measure α} {style : Style α}

/-- The texts of a box can be measured. -/
structure MeasuredBox (measure : Measure α) (style : Style α) (box : Box ι) : Prop where
  label : Succeeds (measure box.label style.font)
  lines : ∀ line ∈ box.lines, Succeeds (measure line style.smallFont)

/-- The texts of a diagram can be measured. -/
def Measured (measure : Measure α) (style : Style α) (diagram : Diagram ι) : Prop :=
  ∀ box ∈ diagram.boxes, MeasuredBox measure style box

section

variable [NeverRefuses α]

/-- One of two lengths is the larger. -/
theorem larger_succeeds (a b : α) : Succeeds (larger a b) :=
  (NeverRefuses.holds .greater b a).bind fun _ => ⟨_, rfl⟩

/-- One of two lengths is the smaller. -/
theorem smaller_succeeds (a b : α) : Succeeds (smaller a b) :=
  (NeverRefuses.holds .less b a).bind fun _ => ⟨_, rfl⟩

/-- One of some lengths is the largest. -/
theorem largest_succeeds (first : α) (rest : List α) : Succeeds (largest first rest) :=
  .foldlM larger_succeeds first rest

/-- One of some lengths is the smallest. -/
theorem smallest_succeeds (first : α) (rest : List α) : Succeeds (smallest first rest) :=
  .foldlM smaller_succeeds first rest

/-- A box whose texts can be measured has a size. -/
theorem sized_succeeds {box : Box ι} (h : MeasuredBox measure style box) :
    Succeeds (sized measure style box) := by
  have hwidth : Succeeds (boxWidth measure style box) :=
    h.label.bind fun label => (Succeeds.mapM h.lines).bind fun lines =>
      (largest_succeeds label lines).bind fun text =>
        (NeverRefuses.mul style.paddingX (whole 2)).bind fun padding =>
          (NeverRefuses.add text padding).bind fun padded =>
            (larger_succeeds style.minWidth padded).bind fun wide =>
              smaller_succeeds style.maxWidth wide
  have hlines : Succeeds (linesHeight style box) := by
    unfold linesHeight
    split
    · exact ⟨_, rfl⟩
    · exact (NeverRefuses.mul _ _).bind fun lines => NeverRefuses.add lines _
  have hheight : Succeeds (boxHeight style box) :=
    hlines.bind fun lines => (NeverRefuses.mul _ _).bind fun padding =>
      (NeverRefuses.add padding _).bind fun label => NeverRefuses.add label lines
  exact hwidth.bind fun width => hheight.bind fun height => ⟨⟨box, width, height⟩, rfl⟩

/-- A row has a width. -/
theorem rowWidth_succeeds (style : Style α) (boxes : List (Sized ι α)) :
    Succeeds (rowWidth style boxes) :=
  (Succeeds.foldlM NeverRefuses.add _ _).bind fun widths =>
    (NeverRefuses.mul _ _).bind fun gaps => NeverRefuses.add widths gaps

/-- Boxes can be placed in a row. -/
theorem placeFrom_succeeds (style : Style α) (row : Nat) (y : α) (boxes : List (Sized ι α))
    (column : Nat) (x : α) : Succeeds (placeFrom style row y column x boxes) := by
  induction boxes generalizing column x with
  | nil => exact ⟨[], rfl⟩
  | cons b rest ih =>
    exact (NeverRefuses.add _ _).bind fun advance => (NeverRefuses.add x advance).bind fun next =>
      (ih (column + 1) next).bind fun placed => ⟨_, rfl⟩

/-- Rows of boxes that can be measured can be placed. -/
theorem placeRows_succeeds {rows : List (Row ι)}
    (h : ∀ row ∈ rows, ∀ box ∈ row.boxes, MeasuredBox measure style box) (y : α) :
    Succeeds (placeRows measure style y rows) := by
  induction rows generalizing y with
  | nil => exact ⟨[], rfl⟩
  | cons row rest ih =>
    have hrest := ih fun other hother => h other (List.mem_cons_of_mem row hother)
    have hboxes : Succeeds (row.boxes.mapM (sized measure style)) :=
      .mapM fun box hbox => sized_succeeds (h row List.mem_cons_self box hbox)
    refine hboxes.bind fun boxes => ?_
    cases boxes with
    -- A row without boxes takes no room.
    | nil => exact hrest y
    | cons first others =>
      exact (largest_succeeds _ _).bind fun tallest => (rowWidth_succeeds style _).bind fun width =>
        (NeverRefuses.neg width).bind fun opposite => (NeverRefuses.halve opposite).bind fun x =>
          (placeFrom_succeeds style row.layer y _ 0 x).bind fun placed =>
            (NeverRefuses.add tallest _).bind fun drop => (NeverRefuses.add y drop).bind fun next =>
              (hrest next).bind fun below => ⟨placed ++ below, rfl⟩

/-- Boxes can be shifted. -/
theorem shiftToZero_succeeds (placed : List (Placed ι α)) : Succeeds (shiftToZero placed) := by
  cases placed with
  | nil => exact ⟨[], rfl⟩
  | cons first rest =>
    exact (smallest_succeeds _ _).bind fun left => Succeeds.mapM fun b _ =>
      (NeverRefuses.sub b.x left).bind fun x => ⟨{ b with x }, rfl⟩

/-- Where the texts of a diagram can be measured and no operation refuses its
lengths, there is a layout. -/
theorem exists_place [DecidableEq ι] {diagram : Diagram ι} (h : Measured measure style diagram) :
    ∃ placed, place measure style diagram = .ok placed := by
  have hrows : ∀ row ∈ orderedRows diagram, ∀ box ∈ row.boxes, MeasuredBox measure style box := by
    intro row hrow box hbox
    exact h box (of_mem_orderedRows hrow hbox).1
  exact (placeRows_succeeds hrows _).bind shiftToZero_succeeds

end

/-! ### Plain boxes -/

namespace Sample

/-- A box that says nothing. -/
def box (id : Nat) : Box Nat :=
  ⟨id, .int id, .string [], [], .null⟩

/-- An arrow that says nothing but its key. -/
def arrow (source target : Nat) (key : String) : Arrow Nat :=
  ⟨source, target, key, .null⟩

/-- Texts without width. -/
def flat : Measure Rat :=
  fun _ _ => .ok 0

/-- The place of a box. -/
def seat (id : Nat) (x y column row : Rat) : Placed Nat Rat :=
  ⟨box id, x, y, 100, 34, column, row⟩

/-- The boxes of the samples can be measured. -/
theorem measured_flat (ids : List Nat) (arrows : List (Arrow Nat)) :
    Measured flat Style.default ⟨ids.map box, arrows⟩ := by
  intro b hb
  obtain ⟨id, _, rfl⟩ := List.mem_map.1 hb
  exact ⟨⟨0, rfl⟩, nofun⟩

end Sample

end Layout

end Flowchart
