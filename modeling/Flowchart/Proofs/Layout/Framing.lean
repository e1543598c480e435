import Flowchart.Proofs.Layout.Camera
import Flowchart.Proofs.Layout.Separation

/-!
# `Flowchart.Proofs.Layout.Framing`: a fitted camera shows the whole layout

Where a viewport is larger than its paddings, the camera that fits a layout
into it shows every corner of every box between the paddings, and magnifies
nothing. Three facts make up the proof. No box reaches above the origin or to
the left of it: rows are placed downward from zero, and in the end the layout
is shifted until its leftmost box starts at zero. The bounds of the layout
reach as far as every box. And a zoom that fits takes a length to no more
than the room that there is for it.

The last one holds for a layout of less than one unit too. Its length counts
as one when the zoom is found, so the zoom is less than it could be, and what
is shown is still no longer than the room.

The gaps across do not matter, since the shift makes up for them. A gap down
that is less than nothing would put rows above the origin.

* `nonneg_place`: the boxes of a layout lie behind the origin;
* `bounds_exact`, `le_bounds`: how far a layout reaches;
* `mul_fittedZoom_le`, `shows_fitted`: what a fitted camera shows;
* `framed_place`: a fitted camera shows the corners of all boxes.
-/

set_option autoImplicit false

namespace Flowchart

open Arithmetic

/-! ### Cameras -/

namespace Camera

/-- A point of the screen lies between the paddings of a viewport. -/
structure Between (width height padding : Rat) (point : Rat × Rat) : Prop where
  left : padding ≤ point.1
  right : point.1 ≤ width - padding
  top : padding ≤ point.2
  bottom : point.2 ≤ height - padding

section

variable {bounds : Rat × Rat} {width height padding : Rat}

/-- Zoomed to fit, a length takes no more than the room that there is for it. -/
theorem mul_fittedZoom_le (hwidth : padding * 2 < width) (hheight : padding * 2 < height) :
    bounds.1 * fittedZoom bounds width height padding ≤ width - padding * 2 ∧
      bounds.2 * fittedZoom bounds width height padding ≤ height - padding * 2 := by
  have hzoom : 0 < fittedZoom bounds width height padding :=
    (fittedZoom_pos_iff bounds width height padding).2 ⟨hwidth, hheight⟩
  -- A length below one counts as one, which is more than it takes.
  have hfits : ∀ room length : Rat, fittedZoom bounds width height padding ≤ room / max 1 length →
      length * fittedZoom bounds width height padding ≤ room := by
    intro room length hle
    have hpos : (0 : Rat) < max 1 length := by positivity
    have hroom : fittedZoom bounds width height padding * max 1 length ≤ room :=
      (le_div_iff₀ hpos).1 hle
    calc length * fittedZoom bounds width height padding
        ≤ max 1 length * fittedZoom bounds width height padding :=
          mul_le_mul_of_nonneg_right (le_max_right 1 length) hzoom.le
      _ = fittedZoom bounds width height padding * max 1 length := mul_comm _ _
      _ ≤ room := hroom
  constructor
  · exact hfits _ _ ((min_le_left _ _).trans (min_le_right _ _))
  · exact hfits _ _ (min_le_right _ _)

/-- A fitted camera shows whatever lies within the bounds between the paddings
of its viewport. -/
theorem shows_fitted (hpadding : 0 ≤ padding) (hwidth : padding * 2 < width)
    (hheight : padding * 2 < height) {x y : Rat} (hx : 0 ≤ x ∧ x ≤ bounds.1)
    (hy : 0 ≤ y ∧ y ≤ bounds.2) :
    ∃ point, (fitted bounds width height padding).toScreen x y = .ok point ∧
      Between width height padding point := by
  have hviewport : ¬(width ≤ 0 ∨ height ≤ 0) := by
    rintro (h | h) <;> linarith
  have hzoom : 0 < fittedZoom bounds width height padding :=
    (fittedZoom_pos_iff bounds width height padding).2 ⟨hwidth, hheight⟩
  obtain ⟨hacross, hdown⟩ : bounds.1 * fittedZoom bounds width height padding ≤ _ ∧
      bounds.2 * fittedZoom bounds width height padding ≤ _ := mul_fittedZoom_le hwidth hheight
  refine ⟨_, toScreen_exact _ x y, ?_⟩
  rw [fitted, if_neg hviewport]
  -- On the screen, too, a point lies between nothing and the bounds.
  have hleft : 0 ≤ x * fittedZoom bounds width height padding := mul_nonneg hx.1 hzoom.le
  have htop : 0 ≤ y * fittedZoom bounds width height padding := mul_nonneg hy.1 hzoom.le
  have hright := mul_le_mul_of_nonneg_right hx.2 hzoom.le
  have hbottom := mul_le_mul_of_nonneg_right hy.2 hzoom.le
  constructor
  · show padding ≤ x * fittedZoom bounds width height padding + _ / 2
    linarith
  · show x * fittedZoom bounds width height padding + _ / 2 ≤ width - padding
    linarith
  · show padding ≤ y * fittedZoom bounds width height padding + padding
    linarith
  · show y * fittedZoom bounds width height padding + padding ≤ height - padding
    linarith

/-- A camera that is fitted into room enough has a zoom, and magnifies nothing. -/
theorem zoom_fitted (bounds : Rat × Rat) (hpadding : 0 ≤ padding) (hwidth : padding * 2 < width)
    (hheight : padding * 2 < height) :
    0 < (fitted bounds width height padding).zoom ∧
      (fitted bounds width height padding).zoom ≤ 1 := by
  have hviewport : ¬(width ≤ 0 ∨ height ≤ 0) := by
    rintro (h | h) <;> linarith
  rw [fitted, if_neg hviewport]
  constructor
  · exact (fittedZoom_pos_iff bounds width height padding).2 ⟨hwidth, hheight⟩
  · exact (min_le_left _ _).trans (min_le_left _ _)

end

end Camera

namespace Layout

variable {ι : Type} {measure : Measure Rat} {style : Style Rat} {placed : List (Placed ι Rat)}

/-! ### Boxes behind the origin -/

namespace Placed

/-- A box reaches neither above the origin nor to the left of it, and has no
size below nothing. -/
structure Nonneg (b : Placed ι Rat) : Prop where
  x : 0 ≤ b.x
  y : 0 ≤ b.y
  width : 0 ≤ b.width
  height : 0 ≤ b.height

/-- The corners of a box. -/
def corners (b : Placed ι Rat) : List (Rat × Rat) :=
  [(b.x, b.y), (b.x + b.width, b.y), (b.x, b.y + b.height), (b.x + b.width, b.y + b.height)]

end Placed

/-- The boxes of a row start at its height and keep their sizes. -/
theorem sizes_placeFrom {row column : Nat} {x y : Rat} {boxes : List (Sized ι Rat)}
    (h : placeFrom style row y column x boxes = .ok placed) :
    placed.map (fun b => (b.y, b.width, b.height)) =
      boxes.map fun s => (y, s.width, s.height) := by
  induction boxes generalizing column x placed with
  | nil =>
    cases h
    rfl
  | cons s rest ih =>
    simp only [placeFrom, add_exact, ok_bind] at h
    obtain ⟨others, hothers, h⟩ := bind_eq_ok.1 h
    cases h
    rw [List.map_cons, List.map_cons, ih hothers]

/-- Rows are placed from a height on downward. -/
theorem nonneg_placeRows {y : Rat} {rows : List (Row ι)}
    (h : placeRows measure style y rows = .ok placed) (hgap : 0 ≤ style.gapY)
    (hne : ∀ row ∈ rows, row.boxes ≠ [])
    (hsizes : ∀ row ∈ rows, ∀ box ∈ row.boxes, ∀ b, sized measure style box = .ok b → b.Nonneg) :
    ∀ b ∈ placed, y ≤ b.y ∧ 0 ≤ b.width ∧ 0 ≤ b.height := by
  induction rows generalizing y placed with
  | nil =>
    cases h
    nofun
  | cons row rest ih =>
    obtain ⟨hrow, hrest⟩ := List.forall_mem_cons.1 hsizes
    obtain ⟨hneRow, hneRest⟩ := List.forall_mem_cons.1 hne
    obtain ⟨boxes, x, inRow, tallest, below, hboxes, hneBoxes, hinRow, htallest, hbelow, rfl⟩ :=
      placeRows_cons hneRow h
    have hnonneg : ∀ s ∈ boxes, s.Nonneg := by
      intro s hs
      obtain ⟨box, hbox, hsized⟩ := exists_of_mem_mapM hboxes s hs
      exact hrow box hbox s hsized
    have htall : 0 ≤ tallest := by
      obtain ⟨s, hs⟩ := List.exists_mem_of_ne_nil boxes hneBoxes
      exact (hnonneg s hs).height.trans (htallest s hs)
    intro b hb
    -- In this row a box is at its height, and the rows below start further down.
    rcases List.mem_append.1 hb with hb | hb
    · have hsize : (b.y, b.width, b.height) ∈ boxes.map fun s => (y, s.width, s.height) := by
        rw [← sizes_placeFrom hinRow]
        exact List.mem_map_of_mem hb
      obtain ⟨s, hs, heq⟩ := List.mem_map.1 hsize
      obtain ⟨hy, hwidth, hheight⟩ : y = b.y ∧ s.width = b.width ∧ s.height = b.height := by
        simpa using heq
      exact ⟨hy.le, hwidth ▸ (hnonneg s hs).width, hheight ▸ (hnonneg s hs).height⟩
    · obtain ⟨hy, hsize⟩ := ih hbelow hneRest hrest b hb
      exact ⟨by linarith, hsize⟩

/-- The shift leaves no box to the left of the origin, and changes nothing else
of a box. -/
theorem nonneg_shiftToZero {shifted : List (Placed ι Rat)} (h : shiftToZero placed = .ok shifted)
    (hplaced : ∀ b ∈ placed, 0 ≤ b.y ∧ 0 ≤ b.width ∧ 0 ≤ b.height) :
    ∀ b ∈ shifted, b.Nonneg := by
  obtain ⟨left, rfl, hleft⟩ := shifted_of_shiftToZero h
  intro b hb
  obtain ⟨c, hc, rfl⟩ := List.mem_map.1 hb
  have hle : left ≤ c.x :=
    (List.min?_eq_some_iff.1 (hleft (List.ne_nil_of_mem hc))).2 c.x (List.mem_map_of_mem hc)
  obtain ⟨hy, hwidth, hheight⟩ := hplaced c hc
  exact ⟨sub_nonneg.2 hle, hy, hwidth, hheight⟩

/-- The boxes of a layout lie behind the origin. -/
theorem nonneg_place [DecidableEq ι] {diagram : Diagram ι}
    (h : place measure style diagram = .ok placed) (hgap : 0 ≤ style.gapY)
    (hsizes : ∀ box ∈ diagram.boxes, ∀ b, sized measure style box = .ok b → b.Nonneg) :
    ∀ b ∈ placed, b.Nonneg := by
  obtain ⟨unshifted, hunshifted, h⟩ := bind_eq_ok.1 h
  refine nonneg_shiftToZero h ?_
  have hrows := nonneg_placeRows hunshifted hgap (fun row hrow => (perm_of_mem_orderedRows hrow).1)
    (fun row hrow box hbox => hsizes box (of_mem_orderedRows hrow hbox).1)
  simpa using hrows

/-! ### Bounds -/

/-- How far some room and a box reach together. -/
def reach (extent : Rat × Rat) (b : Placed ι Rat) : Rat × Rat :=
  (max extent.1 (b.x + b.width), max extent.2 (b.y + b.height))

/-- The bounds of some boxes reach around each of them. -/
theorem bounds_exact (placed : List (Placed ι Rat)) :
    bounds placed = .ok (placed.foldl reach (0, 0)) := by
  have hfold : ∀ start : Rat × Rat, placed.foldlM (fun (width, height) b => do
      let width ← larger width (← b.right)
      let height ← larger height (← b.bottom)
      return (width, height)) start = (.ok (placed.foldl reach start) : Except Fault _) := by
    induction placed with
    | nil => exact fun _ => rfl
    | cons b rest ih =>
      intro start
      rw [List.foldlM_cons, List.foldl_cons, ← ih]
      simp only [Placed.right, Placed.bottom, add_exact, ok_bind, larger_exact]
      rfl
  simpa [bounds] using hfold (0, 0)

/-- Room only grows. -/
theorem le_foldl_reach (placed : List (Placed ι Rat)) (start : Rat × Rat) :
    start.1 ≤ (placed.foldl reach start).1 ∧ start.2 ≤ (placed.foldl reach start).2 := by
  induction placed generalizing start with
  | nil => exact ⟨le_rfl, le_rfl⟩
  | cons b rest ih =>
    obtain ⟨hwidth, hheight⟩ := ih (reach start b)
    exact ⟨(le_max_left _ _).trans hwidth, (le_max_left _ _).trans hheight⟩

/-- Room within some bounds stays within them where the boxes do. -/
theorem foldl_reach_le {width height : Rat}
    (h : ∀ b ∈ placed, b.x + b.width ≤ width ∧ b.y + b.height ≤ height) {start : Rat × Rat}
    (hstart : start.1 ≤ width ∧ start.2 ≤ height) :
    (placed.foldl reach start).1 ≤ width ∧ (placed.foldl reach start).2 ≤ height := by
  induction placed generalizing start with
  | nil => exact hstart
  | cons b rest ih =>
    obtain ⟨hb, hrest⟩ := List.forall_mem_cons.1 h
    exact ih hrest ⟨max_le hstart.1 hb.1, max_le hstart.2 hb.2⟩

/-- The bounds of a layout reach as far as each of its boxes. -/
theorem le_bounds {extent : Rat × Rat} (h : bounds placed = .ok extent) {b : Placed ι Rat}
    (hb : b ∈ placed) : b.x + b.width ≤ extent.1 ∧ b.y + b.height ≤ extent.2 := by
  rw [bounds_exact, Except.ok.injEq] at h
  subst h
  -- From the box on the room holds it, and before it nothing needs to be known.
  obtain ⟨earlier, later, rfl⟩ := List.append_of_mem hb
  rw [List.foldl_append, List.foldl_cons]
  obtain ⟨hwidth, hheight⟩ := le_foldl_reach later (reach (earlier.foldl reach (0, 0)) b)
  exact ⟨(le_max_right _ _).trans hwidth, (le_max_right _ _).trans hheight⟩

/-! ### The whole layout -/

/-- A corner of a box behind the origin lies within the bounds of its layout. -/
theorem corner_within {extent : Rat × Rat} (h : bounds placed = .ok extent) {b : Placed ι Rat}
    (hb : b ∈ placed) (hnonneg : b.Nonneg) {corner : Rat × Rat} (hcorner : corner ∈ b.corners) :
    (0 ≤ corner.1 ∧ corner.1 ≤ extent.1) ∧ 0 ≤ corner.2 ∧ corner.2 ≤ extent.2 := by
  obtain ⟨hright, hbottom⟩ := le_bounds h hb
  obtain ⟨hx, hy, hwidth, hheight⟩ := hnonneg
  simp only [Placed.corners, List.mem_cons, List.not_mem_nil, or_false] at hcorner
  rcases hcorner with rfl | rfl | rfl | rfl <;> refine ⟨⟨?_, ?_⟩, ?_, ?_⟩ <;> dsimp only <;>
    linarith

/-- A fitted camera shows the whole layout. Where rows do not overlap and no
box has a size below nothing, and where a viewport is larger than its paddings
in both directions, there are a layout, its bounds and a camera that fits them.
The camera has a positive zoom that magnifies nothing, and it shows each corner
of each box between the paddings of the viewport. -/
theorem framed_place [DecidableEq ι] {diagram : Diagram ι}
    (hmeasured : Measured measure style diagram) (hgap : 0 ≤ style.gapY)
    (hsizes : ∀ box ∈ diagram.boxes, ∀ b, sized measure style box = .ok b → b.Nonneg)
    {width height padding : Rat} (hpadding : 0 ≤ padding) (hwidth : padding * 2 < width)
    (hheight : padding * 2 < height) :
    ∃ placed extent camera, place measure style diagram = .ok placed ∧
      bounds placed = .ok extent ∧ Camera.fit extent width height padding = .ok camera ∧
      0 < camera.zoom ∧ camera.zoom ≤ 1 ∧
      ∀ b ∈ placed, ∀ corner ∈ b.corners, ∃ point,
        camera.toScreen corner.1 corner.2 = .ok point ∧
          Camera.Between width height padding point := by
  obtain ⟨placed, hplaced⟩ := exists_place hmeasured
  have hbounds := bounds_exact placed
  obtain ⟨hpos, hle⟩ := Camera.zoom_fitted (placed.foldl reach (0, 0)) hpadding hwidth hheight
  refine ⟨placed, _, _, hplaced, hbounds, Camera.fit_exact _ _ _ _, hpos, hle, ?_⟩
  intro b hb corner hcorner
  -- Corners lie between 0 and the bounds only where no size is negative.
  have hnonneg := nonneg_place hplaced hgap hsizes b hb
  obtain ⟨hx, hy⟩ := corner_within hbounds hb hnonneg hcorner
  exact Camera.shows_fitted hpadding hwidth hheight hx hy

/-- Two boxes below a third in a viewport that is narrower than they are: the
far corner of the last one is shown at the right padding. -/
theorem framed_place_fan :
    place Sample.flat Style.default Sample.fan = .ok Sample.placedFan ∧
    bounds Sample.placedFan = .ok (260, 124) ∧
    Camera.fit (260, 124) 200 144 10 = .ok (⟨10, 10, 9 / 13⟩ : Camera Rat) ∧
    ∃ point, Camera.toScreen (⟨10, 10, 9 / 13⟩ : Camera Rat) 260 124 = .ok point ∧
      Camera.Between 200 144 10 point := by
  have hpadding : (0 : Rat) ≤ 10 := by norm_num
  have hwidth : (10 : Rat) * 2 < 200 := by norm_num
  have hheight : (10 : Rat) * 2 < 144 := by norm_num
  obtain ⟨placed, extent, camera, hplaced, hbounds, hfit, _, _, hshown⟩ :=
    framed_place
      (Sample.measured_flat [1, 2, 3] [Sample.arrow 1 2 "1->2", Sample.arrow 1 3 "1->3"])
      (by decide) Sample.nonneg_fan hpadding hwidth hheight
  -- The bounds and the camera are run; that the corner is shown is not.
  have hextent : bounds Sample.placedFan = .ok (260, 124) := by cbv
  have hcamera : Camera.fit (260, 124) 200 144 10 = .ok (⟨10, 10, 9 / 13⟩ : Camera Rat) := by cbv
  cases Sample.place_fan.symm.trans hplaced
  cases hextent.symm.trans hbounds
  cases hcamera.symm.trans hfit
  refine ⟨Sample.place_fan, hextent, hcamera, hshown (Sample.seat 3 160 90 1 1) ?_ (260, 124) ?_⟩
  · simp [Sample.placedFan]
  · norm_num [Placed.corners, Sample.seat]

end Layout

end Flowchart
