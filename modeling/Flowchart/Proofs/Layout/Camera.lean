import Mathlib.Algebra.Order.Field.Basic
import Mathlib.Tactic.FieldSimp
import Mathlib.Tactic.Linarith
import Mathlib.Tactic.NormNum
import Mathlib.Tactic.Positivity
import Flowchart.Layout.Camera
import Flowchart.Proofs.Number.Exact

/-!
# `Flowchart.Proofs.Layout.Camera`: which cameras can be used

A camera can be used if its zoom is positive: points go from the screen to the
world and back, and it can be zoomed. Zooming keeps the zoom between its
limits, so whatever it leads to can be used.

Fitting has no lower limit. It looks at whether the viewport is there at all,
and not at whether the paddings leave any of it. Where they take exactly all,
the zoom is zero, no point of the screen has a place in the world and there is
no zooming in either. Where they take more, the zoom is negative and the
layout is shown upside down, until the first time it is zoomed.

* `Usable`: what can be done with a camera;
* `around`, `zoomedAt_eq_around`: the camera that zooming leads to;
* `usable_of_zooms`, `usable_of_reaches`: zooming leads to usable cameras;
* `fitted`, `fit_exact`: the camera that fits a layout;
* `HasRoom`, `usable_fitted_iff`: where it can be used;
* `usable_iff_hasRoom`: which cameras can be used.
-/

set_option autoImplicit false

namespace Flowchart.Camera

open Arithmetic

/-- Whether zooming by a positive factor around some point leads from one
camera to another one. -/
def Zooms (camera camera' : Camera Rat) : Prop :=
  ∃ x y factor, 0 < factor ∧ camera.zoomedAt x y factor = .ok camera'

/-- Whether zooming any number of times does. -/
abbrev Reaches : Camera Rat → Camera Rat → Prop :=
  Relation.ReflTransGen Zooms

/-- A camera that can be used: it shows the world the right way up, screen and
world are told from each other, and it can be zoomed. -/
structure Usable (camera : Camera Rat) : Prop where
  zoom_pos : 0 < camera.zoom
  toScreen_toWorld : ∀ x y, ∃ world, camera.toWorld x y = .ok world ∧
    camera.toScreen world.1 world.2 = .ok (x, y)
  toWorld_toScreen : ∀ x y, ∃ screen, camera.toScreen x y = .ok screen ∧
    camera.toWorld screen.1 screen.2 = .ok (x, y)
  zooms : ∀ x y factor, ∃ camera', camera.zoomedAt x y factor = .ok camera'

variable {camera camera' : Camera Rat}

/-! ### Screen and world -/

/-- Where a point of the plane is on the screen. -/
theorem toScreen_exact (camera : Camera Rat) (x y : Rat) :
    camera.toScreen x y = .ok (x * camera.zoom + camera.x, y * camera.zoom + camera.y) := rfl

/-- Where a point of the screen is in the plane, if the zoom is not zero. -/
theorem toWorld_exact (h : camera.zoom ≠ 0) (x y : Rat) :
    camera.toWorld x y = .ok ((x - camera.x) / camera.zoom, (y - camera.y) / camera.zoom) := by
  simp only [toWorld, sub_exact, ok_bind, div_exact _ h]
  rfl

/-- With zoom zero, no point of the screen is anywhere in the plane. -/
theorem toWorld_zero (h : camera.zoom = 0) (x y : Rat) :
    camera.toWorld x y = .error (.divisionByZero false) := by
  simp only [toWorld, sub_exact, ok_bind, h, div_zero_exact]
  rfl

/-! ### Zooming -/

/-- Zooming keeps to its limits. -/
theorem zoomAfter_exact (camera : Camera Rat) (factor : Rat) :
    camera.zoomAfter factor = .ok (min 3 (max (1 / 10) (camera.zoom * factor))) := by
  simp [zoomAfter, minZoom, maxZoom, ok_bind]

/-- The camera with a zoom of its own that shows at a screen point what another
camera shows there. -/
def around (camera : Camera Rat) (x y zoom : Rat) : Camera Rat :=
  ⟨x - (x - camera.x) / camera.zoom * zoom, y - (y - camera.y) / camera.zoom * zoom, zoom⟩

/-- Zooming keeps the point under the pointer, and the zoom between its limits.
-/
theorem zoomedAt_eq_around (h : camera.zoom ≠ 0) (x y factor : Rat) :
    camera.zoomedAt x y factor =
      .ok (camera.around x y (min 3 (max (1 / 10) (camera.zoom * factor)))) := by
  simp only [zoomedAt, zoomAfter_exact, toWorld_exact h, ok_bind, mul_exact, sub_exact]
  rfl

/-- Zooming gives a camera whose zoom is between the limits. -/
theorem zoomedAt_exact (h : camera.zoom ≠ 0) (x y factor : Rat) :
    ∃ camera', camera.zoomedAt x y factor = .ok camera' ∧
      camera'.zoom = min 3 (max (1 / 10) (camera.zoom * factor)) :=
  ⟨_, zoomedAt_eq_around h x y factor, rfl⟩

/-- With a zoom of zero there is no zooming. -/
theorem zoomedAt_zero (h : camera.zoom = 0) (x y factor : Rat) :
    camera.zoomedAt x y factor = .error (.divisionByZero false) := by
  simp only [zoomedAt, zoomAfter_exact, toWorld_zero h, ok_bind]
  rfl

/-- A camera with a positive zoom can be used. -/
theorem usable_of_pos (h : 0 < camera.zoom) : Usable camera where
  zoom_pos := h
  toScreen_toWorld x y := by
    refine ⟨_, toWorld_exact h.ne' x y, ?_⟩
    rw [toScreen_exact, div_mul_cancel₀ _ h.ne', div_mul_cancel₀ _ h.ne', sub_add_cancel,
      sub_add_cancel]
  toWorld_toScreen x y := by
    refine ⟨_, toScreen_exact camera x y, ?_⟩
    rw [toWorld_exact h.ne', add_sub_cancel_right, add_sub_cancel_right,
      mul_div_cancel_right₀ _ h.ne', mul_div_cancel_right₀ _ h.ne']
  zooms x y factor := by
    obtain ⟨camera', hzoomed, _⟩ := zoomedAt_exact h.ne' x y factor
    exact ⟨camera', hzoomed⟩

/-- Zooming leads to cameras that can be used, from any camera. -/
theorem usable_of_zooms (h : Zooms camera camera') : Usable camera' := by
  obtain ⟨x, y, factor, _, hzoomed⟩ := h
  by_cases hzero : camera.zoom = 0
  · rw [zoomedAt_zero hzero] at hzoomed
    cases hzoomed
  · obtain ⟨found, hfound, hzoom⟩ := zoomedAt_exact hzero x y factor
    obtain rfl : found = camera' := Except.ok.inj (hfound.symm.trans hzoomed)
    refine usable_of_pos ?_
    rw [hzoom]
    -- The limits are positive, whatever is between them.
    have hlower : (0 : Rat) < max (1 / 10) (camera.zoom * factor) := by positivity
    exact lt_min (by norm_num) hlower

/-- Zooming any number of times leads nowhere, or to cameras that can be used. -/
theorem usable_of_reaches (h : Reaches camera camera') : camera' = camera ∨ Usable camera' := by
  cases h with
  | refl => exact .inl rfl
  | tail _ hstep => exact .inr (usable_of_zooms hstep)

/-- From a camera that can be used, zooming only leads to others like it. -/
theorem Usable.reaches (h : Usable camera) (hreaches : Reaches camera camera') :
    Usable camera' := by
  rcases usable_of_reaches hreaches with rfl | husable
  · exact h
  · exact husable

/-! ### Fitting -/

/-- The zoom at which a layout fits. -/
def fittedZoom (bounds : Rat × Rat) (width height padding : Rat) : Rat :=
  min (min 1 ((width - padding * 2) / max 1 bounds.1)) ((height - padding * 2) / max 1 bounds.2)

/-- The camera that fits a layout. A viewport that is not there leaves it as it
starts. -/
def fitted (bounds : Rat × Rat) (width height padding : Rat) : Camera Rat :=
  if width ≤ 0 ∨ height ≤ 0 then initial
  else
    let zoom := fittedZoom bounds width height padding
    ⟨(width - bounds.1 * zoom) / 2, padding, zoom⟩

/-- Whether a viewport is not there at all, or is more than its paddings. -/
def HasRoom (width height padding : Rat) : Prop :=
  (width ≤ 0 ∨ height ≤ 0) ∨ (padding * 2 < width ∧ padding * 2 < height)

variable (bounds : Rat × Rat) (width height padding : Rat)

/-- The zoom at which one length fits into a viewport. -/
theorem fittingZoom_exact (viewport length padding : Rat) :
    fittingZoom viewport length padding = .ok ((viewport - padding * 2) / max 1 length) := by
  have hne : max 1 length ≠ 0 := by positivity
  simp [fittingZoom, ok_bind, div_exact _ hne]

/-- Fitting gives the camera that is fitted. -/
theorem fit_exact : fit bounds width height padding = .ok (fitted bounds width height padding) := by
  unfold fit fitted
  rw [holds_lessOrEqual_exact, ok_bind]
  by_cases hwidth : width ≤ 0
  · simp [hwidth, pure, Except.pure]
  rw [holds_lessOrEqual_exact, ok_bind]
  by_cases hheight : height ≤ 0
  · simp [hwidth, hheight, pure, Except.pure]
  · simp [hwidth, hheight, fittingZoom_exact, smallest_exact, ok_bind, div_exact, fittedZoom]

/-- The fitted zoom is positive if there is room between the paddings. -/
theorem fittedZoom_pos_iff : 0 < fittedZoom bounds width height padding ↔
    padding * 2 < width ∧ padding * 2 < height := by
  have hbound : ∀ length : Rat, 0 < max 1 length := fun length => by positivity
  rw [fittedZoom, lt_min_iff, lt_min_iff, div_pos_iff_of_pos_right (hbound _),
    div_pos_iff_of_pos_right (hbound _), sub_pos, sub_pos]
  simp

/-- The first camera can be used. -/
theorem usable_initial : Usable initial :=
  usable_of_pos (by simp [initial])

/-- The camera that fits a layout can be used where there is room for it. How
large the layout is does not matter. -/
theorem usable_fitted_iff :
    Usable (fitted bounds width height padding) ↔ HasRoom width height padding := by
  unfold fitted HasRoom
  by_cases hviewport : width ≤ 0 ∨ height ≤ 0
  · simp [hviewport, usable_initial]
  · rw [if_neg hviewport, or_iff_right hviewport, ← fittedZoom_pos_iff bounds]
    exact ⟨fun husable => husable.zoom_pos, fun hpos => usable_of_pos hpos⟩

/-- Zooming leads from the camera that shows the world as it is to cameras that
can be used. Fitting always finds a camera, and zooming leads from it to such
cameras as well, if the viewport has room. If it has none, the camera that was
found cannot be used, but it is the only one. -/
theorem usable_iff_hasRoom :
    (∀ camera, Reaches initial camera → Usable camera) ∧
    ∃ found, fit bounds width height padding = .ok found ∧
      ((∀ camera, Reaches found camera → Usable camera) ↔ HasRoom width height padding) ∧
      ∀ camera, Reaches found camera → camera = found ∨ Usable camera := by
  refine ⟨?_, fitted bounds width height padding, fit_exact bounds width height padding, ?_, ?_⟩
  · intro camera hreaches
    exact usable_initial.reaches hreaches
  · rw [← usable_fitted_iff bounds]
    constructor
    -- The camera that was found is reached without a step.
    · intro hall
      exact hall _ .refl
    · intro hfitted camera hreaches
      exact hfitted.reaches hreaches
  · intro camera hreaches
    exact usable_of_reaches hreaches

/-- A large layout in a small viewport, with room: zoomed in after it was
fitted, it can still be used. -/
theorem usable_iff_hasRoom_small :
    fit (880, 400) 560 800 60 = .ok (⟨60, 60, 1 / 2⟩ : Camera Rat) ∧
    Reaches ⟨60, 60, 1 / 2⟩ ⟨60, 60, 1⟩ ∧ Usable ⟨60, 60, 1⟩ := by
  have hfit : fit (880, 400) 560 800 60 = .ok (⟨60, 60, 1 / 2⟩ : Camera Rat) := by
    with_unfolding_all rfl
  have hreaches : Reaches ⟨60, 60, 1 / 2⟩ ⟨60, 60, 1⟩ :=
    .single ⟨60, 60, 2, by norm_num, by with_unfolding_all rfl⟩
  have hroom : HasRoom 560 800 60 := .inr ⟨by norm_num, by norm_num⟩
  obtain ⟨_, found, hfound, husable, _⟩ := usable_iff_hasRoom (880, 400) 560 800 60
  rw [hfit] at hfound
  cases hfound
  exact ⟨hfit, hreaches, husable.2 hroom _ hreaches⟩

/-- Where the paddings take all of the width, the camera that fits a layout has
a zoom of zero: it finds nothing and cannot be zoomed. Where they take more,
the zoom is negative. -/
theorem not_usable_without_room :
    fit (200, 100) 120 800 60 = .ok (⟨60, 60, 0⟩ : Camera Rat) ∧
    toWorld (⟨60, 60, 0⟩ : Camera Rat) 0 0 = .error (.divisionByZero false) ∧
    zoomedAt (⟨60, 60, 0⟩ : Camera Rat) 0 0 2 = .error (.divisionByZero false) ∧
    ¬Usable ⟨60, 60, 0⟩ ∧
    fit (200, 100) 100 100 60 = .ok (⟨70, 60, -1 / 5⟩ : Camera Rat) ∧
    ¬Usable ⟨70, 60, -1 / 5⟩ := by
  have hfit : fit (200, 100) 120 800 60 = .ok (⟨60, 60, 0⟩ : Camera Rat) := by
    with_unfolding_all rfl
  have hfit' : fit (200, 100) 100 100 60 = .ok (⟨70, 60, -1 / 5⟩ : Camera Rat) := by
    with_unfolding_all rfl
  refine ⟨hfit, toWorld_zero rfl 0 0, zoomedAt_zero rfl 0 0 2, ?_, hfit', ?_⟩
  · intro husable
    exact absurd husable.zoom_pos (by norm_num)
  · intro husable
    exact absurd husable.zoom_pos (by norm_num)

end Flowchart.Camera
