import Flowchart.Proofs.Layout.Camera

/-!
# `Flowchart.Proofs.Layout.Zooming`: the point under the cursor stays

A camera is zoomed any number of times around one point of the screen, by any
factors, and some of the steps may meet a limit. The world point that is shown
there stays the same all the time.

The offsets of each camera are computed from the one before it, with a
division by its zoom. None of this adds up. Whatever was done before, the
camera is the one `around` the point with the zoom that it has come to
(`around_around`). So a run is told by its zooms alone, and these know neither
the point nor the offsets. Where no step meets a limit, the zoom at the end is
the first one times all factors, which is what a single step would give.

* `zoomedThrough`, `zoomsThrough`: a run of steps, and what it does to a zoom;
* `Unlimited`: no step of a run meets a limit;
* `zoomedThrough_eq_around`: a run leads to the camera with the zoom at its end;
* `zoomedThrough_keeps`: what a run keeps.
-/

set_option autoImplicit false

namespace Flowchart.Camera

open Arithmetic

variable {camera : Camera Rat}

/-! ### Around a point -/

/-- To zoom to the zoom that there is changes nothing. -/
theorem around_self (camera : Camera Rat) (h : camera.zoom ≠ 0) (x y : Rat) :
    camera.around x y camera.zoom = camera := by
  simp [around, h]

/-- The camera around a point does not depend on what was there in between. -/
theorem around_around (camera : Camera Rat) (x y : Rat) {zoom : Rat} (h : zoom ≠ 0)
    (zoom' : Rat) : (camera.around x y zoom).around x y zoom' = camera.around x y zoom' := by
  simp [around, h]

/-- Around a point, all cameras show the same there. -/
theorem toWorld_around (hcamera : camera.zoom ≠ 0) (x y : Rat) {zoom : Rat} (h : zoom ≠ 0) :
    (camera.around x y zoom).toWorld x y = camera.toWorld x y := by
  have haround : (camera.around x y zoom).zoom ≠ 0 := h
  rw [toWorld_exact haround, toWorld_exact hcamera]
  simp [around, h]

/-! ### Limits -/

/-- The zoom within its limits that is nearest to some number. -/
def limited (zoom : Rat) : Rat :=
  min maxZoom (max minZoom zoom)

/-- The limits are a tenth and three. -/
theorem limits_exact : (minZoom : Rat) = 1 / 10 ∧ (maxZoom : Rat) = 3 := by
  simp [minZoom, maxZoom]

/-- A limited zoom is between the limits. -/
theorem limited_mem (zoom : Rat) : minZoom ≤ limited zoom ∧ limited zoom ≤ maxZoom := by
  obtain ⟨hmin, hmax⟩ := limits_exact
  have horder : (minZoom : Rat) ≤ maxZoom := by
    rw [hmin, hmax]
    norm_num
  exact ⟨le_min horder (le_max_left _ _), min_le_left _ _⟩

/-- With a zoom within the limits, points of the screen have a place. -/
theorem ne_zero_of_minZoom_le {zoom : Rat} (h : minZoom ≤ zoom) : zoom ≠ 0 := by
  rw [limits_exact.1] at h
  have hpos : 0 < zoom := by linarith
  exact hpos.ne'

/-- What lies within the limits stays as it is. -/
theorem limited_eq_self {zoom : Rat} (h : minZoom ≤ zoom ∧ zoom ≤ maxZoom) :
    limited zoom = zoom := by
  rw [limited, max_eq_right h.1, min_eq_right h.2]

/-- The zoom after a step is the limited product. -/
theorem zoomAfter_eq_limited (camera : Camera Rat) (factor : Rat) :
    camera.zoomAfter factor = .ok (limited (camera.zoom * factor)) := by
  rw [zoomAfter_exact, limited, limits_exact.1, limits_exact.2]

/-- A step zooms around the pointer, to the limited product. -/
theorem zoomedAt_eq_limited (h : camera.zoom ≠ 0) (x y factor : Rat) :
    camera.zoomedAt x y factor = .ok (camera.around x y (limited (camera.zoom * factor))) := by
  rw [zoomedAt_eq_around h, limited, limits_exact.1, limits_exact.2]

/-! ### Runs -/

/-- A camera zoomed by some factors, one after the other, around one point. -/
def zoomedThrough (camera : Camera Rat) (x y : Rat) (factors : List Rat) :
    Except Fault (Camera Rat) :=
  factors.foldlM (fun camera factor => camera.zoomedAt x y factor) camera

/-- What some factors, one after the other, do to a zoom. -/
def zoomsThrough (zoom : Rat) (factors : List Rat) : Rat :=
  factors.foldl (fun zoom factor => limited (zoom * factor)) zoom

/-- No step of a run meets a limit: each zoom becomes what it is times the
factor. -/
def Unlimited (x y : Rat) : Camera Rat → List Rat → Prop
  | _, [] => True
  | camera, factor :: factors =>
    camera.zoomAfter factor = mul camera.zoom factor ∧
      ∀ next, camera.zoomedAt x y factor = .ok next → Unlimited x y next factors

/-- A run leads to the camera around its point that has the zoom at its end. -/
theorem zoomedThrough_eq_around (h : camera.zoom ≠ 0) (x y : Rat) (factors : List Rat) :
    camera.zoomedThrough x y factors =
      .ok (camera.around x y (zoomsThrough camera.zoom factors)) := by
  induction factors generalizing camera with
  | nil =>
    show Except.ok camera = _
    rw [zoomsThrough, List.foldl_nil, around_self camera h]
  | cons factor factors ih =>
    have hne := ne_zero_of_minZoom_le (limited_mem (camera.zoom * factor)).1
    rw [zoomedThrough, List.foldlM_cons, zoomedAt_eq_limited h, ok_bind]
    -- From the camera that the first step leads to, on to the end.
    have hnext : (camera.around x y (limited (camera.zoom * factor))).zoom ≠ 0 := hne
    have hrest := ih hnext
    rw [around_around camera x y hne] at hrest
    exact hrest

/-- A run that takes a step ends within the limits. -/
theorem zoomsThrough_mem (zoom : Rat) {factors : List Rat} (h : factors ≠ []) :
    minZoom ≤ zoomsThrough zoom factors ∧ zoomsThrough zoom factors ≤ maxZoom := by
  -- The limits are kept by the last step, so only that one is looked at.
  obtain ⟨before, last, rfl⟩ := List.eq_nil_or_concat factors |>.resolve_left h
  rw [zoomsThrough, List.concat_eq_append, List.foldl_append]
  exact limited_mem _

/-- No number of steps makes the zoom zero. -/
theorem zoomsThrough_ne_zero {zoom : Rat} (h : zoom ≠ 0) (factors : List Rat) :
    zoomsThrough zoom factors ≠ 0 := by
  cases factors with
  | nil => exact h
  | cons factor factors =>
    have hmem := zoomsThrough_mem zoom (List.cons_ne_nil factor factors)
    exact ne_zero_of_minZoom_le hmem.1

/-- Without a limit that is met, a run multiplies the zoom by its factors. -/
theorem Unlimited.zoomsThrough_eq {x y : Rat} {factors : List Rat} (hcamera : camera.zoom ≠ 0)
    (h : Unlimited x y camera factors) :
    zoomsThrough camera.zoom factors = camera.zoom * factors.prod := by
  induction factors generalizing camera with
  | nil =>
    show camera.zoom = camera.zoom * 1
    rw [mul_one]
  | cons factor factors ih =>
    obtain ⟨hstep, hrest⟩ := h
    rw [zoomAfter_eq_limited, mul_exact, Except.ok.injEq] at hstep
    have hnext := hrest _ (zoomedAt_eq_limited hcamera x y factor)
    -- The first step comes to no limit, and the others start from where it leads.
    calc zoomsThrough camera.zoom (factor :: factors)
        = zoomsThrough (limited (camera.zoom * factor)) factors := rfl
      _ = limited (camera.zoom * factor) * factors.prod :=
          ih (ne_zero_of_minZoom_le (limited_mem (camera.zoom * factor)).1) hnext
      _ = camera.zoom * (factor :: factors).prod := by
          rw [hstep, List.prod_cons, mul_assoc]

/-- Zooming around a point keeps what is shown there. From a camera with a zoom
there is a run of any factors, and the camera that it leads to shows at the
point what the first one shows there. If there was a step, its zoom lies within
the limits, and if no step met a limit, a single step by the product of the
factors leads to the same camera. -/
theorem zoomedThrough_keeps (camera : Camera Rat) (h : camera.zoom ≠ 0) (x y : Rat)
    (factors : List Rat) :
    ∃ final world, camera.zoomedThrough x y factors = .ok final ∧
      camera.toWorld x y = .ok world ∧ final.toWorld x y = .ok world ∧
      (factors ≠ [] → minZoom ≤ final.zoom ∧ final.zoom ≤ maxZoom) ∧
      (factors ≠ [] → Unlimited x y camera factors →
        camera.zoomedAt x y factors.prod = .ok final) := by
  have hne := zoomsThrough_ne_zero h factors
  refine ⟨camera.around x y (zoomsThrough camera.zoom factors), _,
    zoomedThrough_eq_around h x y factors, toWorld_exact h x y, ?_, ?_, ?_⟩
  · rw [toWorld_around h x y hne, toWorld_exact h]
  · intro hfactors
    exact zoomsThrough_mem camera.zoom hfactors
  · intro hfactors hfree
    -- The product is what the run has come to, so a limit does not change it.
    have hmem := zoomsThrough_mem camera.zoom hfactors
    rw [hfree.zoomsThrough_eq h] at hmem ⊢
    rw [zoomedAt_eq_limited h, limited_eq_self hmem]

/-- Zoomed in, then out and in again, a camera shows at the point of the screen
what it showed there, and a single step does the same. -/
theorem zoomedThrough_keeps_mixed :
    zoomedThrough (⟨10, 20, 1⟩ : Camera Rat) 30 60 [2, 1 / 4, 3] = .ok ⟨0, 0, 3 / 2⟩ ∧
    toWorld (⟨10, 20, 1⟩ : Camera Rat) 30 60 = .ok (20, 40) ∧
    toWorld (⟨0, 0, 3 / 2⟩ : Camera Rat) 30 60 = .ok (20, 40) ∧
    minZoom ≤ (3 / 2 : Rat) ∧ (3 / 2 : Rat) ≤ maxZoom ∧
    zoomedAt (⟨10, 20, 1⟩ : Camera Rat) 30 60 ([2, 1 / 4, 3] : List Rat).prod =
      .ok ⟨0, 0, 3 / 2⟩ := by
  -- None of the three steps comes to a limit.
  have hin : zoomedAt (⟨10, 20, 1⟩ : Camera Rat) 30 60 2 = .ok ⟨-10, -20, 2⟩ := by
    with_unfolding_all rfl
  have hout : zoomedAt (⟨-10, -20, 2⟩ : Camera Rat) 30 60 (1 / 4) = .ok ⟨20, 40, 1 / 2⟩ := by
    with_unfolding_all rfl
  have hfree : Unlimited 30 60 (⟨10, 20, 1⟩ : Camera Rat) [2, 1 / 4, 3] := by
    refine ⟨by with_unfolding_all rfl, fun next hnext => ?_⟩
    cases hin.symm.trans hnext
    refine ⟨by with_unfolding_all rfl, fun next hnext => ?_⟩
    cases hout.symm.trans hnext
    exact ⟨by with_unfolding_all rfl, fun _ _ => trivial⟩
  have hrun : zoomedThrough (⟨10, 20, 1⟩ : Camera Rat) 30 60 [2, 1 / 4, 3] =
      .ok ⟨0, 0, 3 / 2⟩ := by with_unfolding_all rfl
  have hworld : toWorld (⟨10, 20, 1⟩ : Camera Rat) 30 60 = .ok (20, 40) := by
    with_unfolding_all rfl
  have hzoom : (⟨10, 20, 1⟩ : Camera Rat).zoom ≠ 0 := by norm_num
  obtain ⟨final, world, hfinal, hseen, hkept, hlimits, honce⟩ :=
    zoomedThrough_keeps ⟨10, 20, 1⟩ hzoom 30 60 [2, 1 / 4, 3]
  cases hrun.symm.trans hfinal
  cases hworld.symm.trans hseen
  obtain ⟨hleast, hmost⟩ := hlimits (List.cons_ne_nil _ _)
  exact ⟨hrun, hworld, hkept, hleast, hmost, honce (List.cons_ne_nil _ _) hfree⟩

end Flowchart.Camera
