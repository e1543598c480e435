import Flowchart.Proofs.Layout.Arrangement
import Flowchart.Proofs.Layout.Framing

/-!
# `Flowchart.Proofs.Layout.Centring`: rows share an axis, and bounds are tight

Every row of a layout is centred on one axis, the leftmost box starts at zero,
and the bounds are just as large as the rows need: as wide as the widest of
them, and as high as their tallest boxes with the gaps between them.

Rows are placed on the axis zero, each from half of its room to the left of it
on. So the row that reaches furthest to the left is the widest one, and the
shift at the end moves the axis to half of its room. The two ends of that row
are then zero and its room, which no other row goes beyond. Downward each row
starts where the rows above leave off, so only the last one ends at the bounds.

The rows of a layout are read off the boxes themselves, by their row numbers.

* `rowsOf`: the boxes of a layout, row by row;
* `Spans`, `CentredOn`: from where to where a row goes;
* `Stacked`: rows on one axis, one below the other;
* `stacked_place`: the rows of a layout are;
* `Stacked.widest`, `Stacked.depth`: how far such rows reach;
* `centred_place`: the rows, the left end and the bounds of a layout.
-/

set_option autoImplicit false

namespace Flowchart.Layout

open Arithmetic

variable {ι : Type} {measure : Measure Rat} {style : Style Rat} {placed : List (Placed ι Rat)}

/-! ### The rows of a layout -/

/-- The boxes of a layout, row by row. -/
def rowsOf (placed : List (Placed ι Rat)) : List (List (Placed ι Rat)) :=
  (placed.map Placed.row).dedup.map fun row => placed.filter fun b => b.row = row

/-- Each box stands in one of the rows, and the rows have no other boxes. -/
theorem mem_rowsOf {b : Placed ι Rat} : (∃ row ∈ rowsOf placed, b ∈ row) ↔ b ∈ placed := by
  constructor
  · rintro ⟨row, hrow, hb⟩
    obtain ⟨number, _, rfl⟩ := List.mem_map.1 hrow
    exact (List.mem_filter.1 hb).1
  · intro hb
    have hnumber : b.row ∈ (placed.map Placed.row).dedup :=
      List.mem_dedup.2 (List.mem_map_of_mem hb)
    exact ⟨_, List.mem_map_of_mem hnumber, List.mem_filter.2 ⟨hb, decide_eq_true rfl⟩⟩

/-- Boxes of one row in front of boxes of other rows are the first row. -/
theorem rowsOf_append {row below : List (Placed ι Rat)} {number : Rat} (hne : row ≠ [])
    (hrow : ∀ b ∈ row, b.row = number) (hbelow : ∀ b ∈ below, b.row ≠ number) :
    rowsOf (row ++ below) = row :: rowsOf below := by
  have hnumbers : ((row ++ below).map Placed.row).dedup =
      number :: (below.map Placed.row).dedup := by
    have hreplicate : row.map Placed.row = List.replicate row.length number :=
      List.map_eq_replicate_iff.2 hrow
    have hdisjoint : List.Disjoint (List.replicate row.length number) (below.map Placed.row) := by
      intro m hm hmem
      obtain ⟨b, hb, rfl⟩ := List.mem_map.1 hmem
      exact hbelow b hb (List.eq_of_mem_replicate hm)
    rw [List.map_append, hreplicate, hdisjoint.dedup_append,
      List.replicate_dedup (mt List.length_eq_zero_iff.1 hne), List.singleton_append]
  have hfirst : (row ++ below).filter (fun b => b.row = number) = row := by
    rw [List.filter_append, List.filter_eq_self.2 (by simpa using hrow),
      List.filter_eq_nil_iff.2 (by simpa using hbelow), List.append_nil]
  rw [rowsOf, hnumbers, List.map_cons, hfirst, rowsOf]
  congr 1
  refine List.map_congr_left ?_
  intro other hother
  obtain ⟨c, hc, rfl⟩ := List.mem_map.1 (List.mem_dedup.1 hother)
  -- Any other number is one of the boxes below, so the row in front has no part in it.
  have hnone : row.filter (fun b => b.row = c.row) = [] := by
    refine List.filter_eq_nil_iff.2 ?_
    intro b hb heq
    exact hbelow c hc ((of_decide_eq_true heq).symm.trans (hrow b hb))
  rw [List.filter_append, hnone, List.nil_append]

/-- Boxes that are shifted have the same rows, shifted. -/
theorem rowsOf_shifted (left : Rat) (placed : List (Placed ι Rat)) :
    rowsOf (placed.map (Placed.shifted left)) =
      (rowsOf placed).map (List.map (Placed.shifted left)) := by
  simp only [rowsOf, List.map_map, List.filter_map]
  rfl

/-! ### The room of a row -/

/-- A row of lengths spans its first one, a gap and the rest. -/
theorem span_cons (gap length : Rat) (lengths : List Rat) :
    span gap (length :: lengths) = length + (gap + span gap lengths) := by
  simp only [span, List.sum_cons, List.length_cons]
  push_cast
  ring

/-- One length spans itself. -/
theorem span_singleton (gap length : Rat) : span gap [length] = length := by
  simp [span]

/-- What lengths span is not negative if they and the gap are not. -/
theorem span_nonneg {gap : Rat} (hgap : 0 ≤ gap) {lengths : List Rat}
    (hlengths : ∀ length ∈ lengths, 0 ≤ length) (hne : lengths ≠ []) : 0 ≤ span gap lengths := by
  have hcount : (1 : Rat) ≤ lengths.length := by
    exact_mod_cast List.length_pos_iff.2 hne
  have hgaps : 0 ≤ ((lengths.length : Rat) - 1) * gap := mul_nonneg (by linarith) hgap
  have hsum : 0 ≤ lengths.sum := List.sum_nonneg hlengths
  exact add_nonneg hsum hgaps

/-- The room that a row takes across: its boxes and the gaps between them. -/
def spread (style : Style Rat) (row : List (Placed ι Rat)) : Rat :=
  span style.gapX (row.map Placed.width)

/-- The height of the tallest box of a row. -/
def tallest (row : List (Placed ι Rat)) : Rat :=
  (row.map Placed.height).max?.getD 0

/-- A row goes from one place to another: its first box starts at the one, its
last box ends at the other, and all of its boxes lie between them. -/
structure Spans (left right : Rat) (row : List (Placed ι Rat)) : Prop where
  first : row.head?.map Placed.x = some left
  last : row.getLast?.map (fun b => b.x + b.width) = some right
  within : ∀ b ∈ row, left ≤ b.x ∧ b.x + b.width ≤ right

/-- A row lies around an axis: half way from where its first box starts to
where its last box ends. -/
def CentredOn (axis : Rat) (row : List (Placed ι Rat)) : Prop :=
  ∃ left right, Spans left right row ∧ (left + right) / 2 = axis

namespace Spans

variable {left right : Rat} {row : List (Placed ι Rat)}

/-- A row that spans a width has a box at the left end. -/
theorem exists_first (h : Spans left right row) : ∃ b ∈ row, b.x = left := by
  obtain ⟨b, hb, hx⟩ := Option.map_eq_some_iff.1 h.first
  exact ⟨b, List.mem_of_mem_head? hb, hx⟩

/-- A row that spans a width has a box at the right end. -/
theorem exists_last (h : Spans left right row) : ∃ b ∈ row, b.x + b.width = right := by
  obtain ⟨b, hb, hx⟩ := Option.map_eq_some_iff.1 h.last
  exact ⟨b, List.mem_of_getLast? hb, hx⟩

/-- A row that spans a width is not empty. -/
theorem ne_nil (h : Spans left right row) : row ≠ [] := by
  obtain ⟨b, hb, _⟩ := h.exists_first
  exact List.ne_nil_of_mem hb

/-- A box in front of a row, not beyond where the row starts. -/
theorem cons (h : Spans left right row) (b : Placed ι Rat) (hstart : b.x ≤ left)
    (hend : b.x + b.width ≤ right) : Spans b.x right (b :: row) where
  first := rfl
  last := by
    obtain ⟨c, hc, hx⟩ := Option.map_eq_some_iff.1 h.last
    rw [List.getLast?_cons, hc]
    exact congrArg some hx
  within := by
    refine List.forall_mem_cons.2 ⟨⟨le_rfl, hend⟩, ?_⟩
    intro c hc
    exact ⟨hstart.trans (h.within c hc).1, (h.within c hc).2⟩

/-- A row that is shifted spans what it spanned, shifted. -/
theorem shifted (h : Spans left right row) (way : Rat) :
    Spans (left - way) (right - way) (row.map (Placed.shifted way)) where
  first := by
    obtain ⟨b, hb, hx⟩ := Option.map_eq_some_iff.1 h.first
    rw [List.head?_map, hb, ← hx]
    rfl
  last := by
    obtain ⟨b, hb, hx⟩ := Option.map_eq_some_iff.1 h.last
    rw [List.getLast?_map, hb, ← hx]
    exact congrArg some (sub_add_eq_add_sub _ _ _)
  within := by
    intro b hb
    obtain ⟨c, hc, rfl⟩ := List.mem_map.1 hb
    obtain ⟨hstart, hend⟩ := h.within c hc
    constructor
    · show left - way ≤ c.x - way
      linarith
    · show c.x - way + c.width ≤ right - way
      linarith

end Spans

/-- Boxes placed side by side go from where they are placed as far as their
room goes. -/
theorem spans_placeFrom {row column : Nat} {x y : Rat} {boxes : List (Sized ι Rat)}
    (h : placeFrom style row y column x boxes = .ok placed) (hne : boxes ≠ [])
    (hgap : 0 ≤ style.gapX) (hsizes : ∀ s ∈ boxes, s.Nonneg) :
    Spans x (x + span style.gapX (boxes.map Sized.width)) placed := by
  induction boxes generalizing column x placed with
  | nil => exact absurd rfl hne
  | cons s rest ih =>
    simp only [placeFrom, add_exact, ok_bind] at h
    obtain ⟨others, hothers, h⟩ := bind_eq_ok.1 h
    cases h
    obtain ⟨hs, hrest⟩ := List.forall_mem_cons.1 hsizes
    have hwidth := hs.width
    -- Behind the last box there is no gap.
    by_cases hlast : rest = []
    · subst hlast
      cases hothers
      rw [List.map_singleton, span_singleton]
      exact ⟨rfl, rfl, fun b hb => by cases List.mem_singleton.1 hb; exact ⟨le_rfl, le_rfl⟩⟩
    · have hwidths : rest.map Sized.width ≠ [] := mt List.map_eq_nil_iff.1 hlast
      have hroom : 0 ≤ span style.gapX (rest.map Sized.width) := by
        refine span_nonneg hgap ?_ hwidths
        intro width hmem
        obtain ⟨t, ht, rfl⟩ := List.mem_map.1 hmem
        exact (hrest t ht).width
      have hend : x + (s.width + style.gapX) + span style.gapX (rest.map Sized.width) =
          x + span style.gapX ((s :: rest).map Sized.width) := by
        rw [List.map_cons, span_cons]
        ring
      rw [← hend]
      refine (ih hothers hlast hrest).cons ⟨s.box, x, y, s.width, s.height, _, _⟩ ?_ ?_
      · show x ≤ x + (s.width + style.gapX)
        linarith
      · show x + s.width ≤ x + (s.width + style.gapX) + _
        linarith

/-! ### Rows on an axis -/

/-- A row at a height, around an axis, that goes as far as its room. -/
structure Strip (style : Style Rat) (axis y : Rat) (row : List (Placed ι Rat)) : Prop where
  spans : Spans (axis - spread style row / 2) (axis + spread style row / 2) row
  y : ∀ b ∈ row, b.y = y

/-- Rows around an axis, the first at a height and each of the others a gap
below the tallest box of the one before. -/
def Stacked (style : Style Rat) (axis : Rat) : Rat → List (List (Placed ι Rat)) → Prop
  | _, [] => True
  | y, row :: rest =>
    Strip style axis y row ∧ Stacked style axis (y + (tallest row + style.gapY)) rest

/-- Boxes placed from half of their room to the left of the axis zero on lie
around it, and are as high as they were. -/
theorem strip_placeFrom {number column : Nat} {y : Rat} {boxes : List (Sized ι Rat)}
    (h : placeFrom style number y column (-span style.gapX (boxes.map Sized.width) / 2) boxes =
      .ok placed)
    (hne : boxes ≠ []) (hgap : 0 ≤ style.gapX) (hsizes : ∀ s ∈ boxes, s.Nonneg) :
    Strip style 0 y placed ∧ placed.map Placed.height = boxes.map Sized.height := by
  have hsame := sizes_placeFrom h
  have hwidths : placed.map Placed.width = boxes.map Sized.width := by
    simpa [Function.comp_def] using congrArg (List.map fun size => size.2.1) hsame
  refine ⟨⟨?_, ?_⟩, ?_⟩
  · have hspans := spans_placeFrom h hne hgap hsizes
    -- The row starts half of its width to the left of the axis, so it ends half of it to the
    -- right.
    have hstart : -span style.gapX (boxes.map Sized.width) / 2 = 0 - spread style placed / 2 := by
      rw [spread, hwidths]
      ring
    have hend : 0 - spread style placed / 2 + span style.gapX (boxes.map Sized.width) =
        0 + spread style placed / 2 := by
      rw [spread, hwidths]
      ring
    rwa [hstart, hend] at hspans
  · intro b hb
    have hsize : (b.y, b.width, b.height) ∈ boxes.map fun s => (y, s.width, s.height) := by
      rw [← hsame]
      exact List.mem_map_of_mem hb
    obtain ⟨s, _, heq⟩ := List.mem_map.1 hsize
    exact (congrArg Prod.fst heq).symm
  · simpa [Function.comp_def] using congrArg (List.map fun size => size.2.2) hsame

/-- Boxes that are placed in a row have the number of the row. -/
theorem row_placeFrom {number column : Nat} {x y : Rat} {boxes : List (Sized ι Rat)}
    (h : placeFrom style number y column x boxes = .ok placed) :
    ∀ b ∈ placed, b.row = number := by
  intro b hb
  have hshown := List.mem_map_of_mem (f := Placed.shown) hb
  rw [shown_placeFrom h, spotsFrom, List.map_map] at hshown
  obtain ⟨_, _, heq⟩ := List.mem_map.1 hshown
  exact (congrArg (fun shown => shown.2.1) heq).symm

/-- Boxes that are placed in rows have the numbers of these rows. -/
theorem row_placeRows {y : Rat} {rows : List (Row ι)}
    (h : placeRows measure style y rows = .ok placed) :
    ∀ b ∈ placed, ∃ row ∈ rows, b.row = row.layer := by
  intro b hb
  have hshown := List.mem_map_of_mem (f := Placed.shown) hb
  rw [shown_placeRows h] at hshown
  obtain ⟨spot, hspot, heq⟩ := List.mem_map.1 hshown
  obtain ⟨row, hrow, hin⟩ := List.mem_flatMap.1 hspot
  refine ⟨row, hrow, ?_⟩
  rw [← row_of_mem_spots hin]
  exact (congrArg (fun shown => shown.2.1) heq).symm

/-- Rows that are placed lie around the axis zero. -/
theorem stacked_placeRows {y : Rat} {rows : List (Row ι)}
    (h : placeRows measure style y rows = .ok placed) (hgap : 0 ≤ style.gapX)
    (hlayers : rows.Pairwise fun above row => above.layer < row.layer)
    (hne : ∀ row ∈ rows, row.boxes ≠ [])
    (hsizes : ∀ row ∈ rows, ∀ box ∈ row.boxes, ∀ b, sized measure style box = .ok b → b.Nonneg) :
    Stacked style 0 y (rowsOf placed) := by
  induction rows generalizing y placed with
  | nil =>
    cases h
    trivial
  | cons row rest ih =>
    obtain ⟨hlayer, hlayers⟩ := List.pairwise_cons.1 hlayers
    obtain ⟨hrow, hrest⟩ := List.forall_mem_cons.1 hsizes
    obtain ⟨hneRow, hneRest⟩ := List.forall_mem_cons.1 hne
    obtain ⟨boxes, inRow, highest, below, hboxes, hneBoxes, hinRow, hhighest, hbelow, rfl⟩ :=
      placeRows_cons_centred hneRow h
    have hnonneg : ∀ s ∈ boxes, s.Nonneg := by
      intro s hs
      obtain ⟨box, hbox, hsized⟩ := exists_of_mem_mapM hboxes s hs
      exact hrow box hbox s hsized
    obtain ⟨hstrip, hheights⟩ := strip_placeFrom hinRow hneBoxes hgap hnonneg
    -- The rows below have other numbers, so the boxes of this row are the first of all rows.
    have hothers : ∀ b ∈ below, b.row ≠ row.layer := by
      intro b hb heq
      obtain ⟨other, hother, hnumber⟩ := row_placeRows hbelow b hb
      have hlt : (row.layer : Rat) < other.layer := by exact_mod_cast hlayer other hother
      exact hlt.ne (heq.symm.trans hnumber)
    have htallest : tallest inRow = highest := by
      rw [tallest, hheights, hhighest, Option.getD_some]
    rw [rowsOf_append hstrip.spans.ne_nil (row_placeFrom hinRow) hothers]
    refine ⟨hstrip, ?_⟩
    rw [htallest]
    exact ih hbelow hlayers hneRest hrest

/-- Shifting all boxes alike shifts the axis. -/
theorem Stacked.shifted {axis y : Rat} {rows : List (List (Placed ι Rat))}
    (h : Stacked style axis y rows) (left : Rat) :
    Stacked style (axis - left) y (rows.map (List.map (Placed.shifted left))) := by
  induction rows generalizing y with
  | nil => trivial
  | cons row rest ih =>
    obtain ⟨hstrip, hrest⟩ := h
    -- Widths and heights stay what they were, only the ends of a row move.
    have hspread : spread style (row.map (Placed.shifted left)) = spread style row := by
      rw [spread, List.map_map]
      rfl
    have htallest : tallest (row.map (Placed.shifted left)) = tallest row := by
      rw [tallest, List.map_map]
      rfl
    refine ⟨⟨?_, ?_⟩, ?_⟩
    · have hspans := hstrip.spans.shifted left
      rw [hspread]
      rwa [sub_right_comm, add_sub_right_comm] at hspans
    · intro b hb
      obtain ⟨c, hc, rfl⟩ := List.mem_map.1 hb
      exact hstrip.y c hc
    · rw [htallest]
      exact ih hrest

/-- Each row of a stack is a strip at some height. -/
theorem Stacked.strip {axis y : Rat} {rows : List (List (Placed ι Rat))}
    (h : Stacked style axis y rows) : ∀ row ∈ rows, ∃ y, Strip style axis y row := by
  induction rows generalizing y with
  | nil => nofun
  | cons row rest ih => exact List.forall_mem_cons.2 ⟨⟨y, h.1⟩, ih h.2⟩

/-! ### How far rows reach -/

/-- Where the leftmost box of rows around an axis starts at zero, the room of
the widest of the rows is twice as far as the axis. -/
theorem Stacked.widest {axis y : Rat} (h : Stacked style axis y (rowsOf placed))
    (hleast : IsLeast {x | ∃ b ∈ placed, b.x = x} 0) :
    ((rowsOf placed).map (spread style)).max? = some (2 * axis) := by
  have hle : ∀ row ∈ rowsOf placed, spread style row ≤ 2 * axis := by
    intro row hrow
    obtain ⟨_, hstrip⟩ := h.strip row hrow
    obtain ⟨b, hb, hx⟩ := hstrip.spans.exists_first
    have hstart : 0 ≤ axis - spread style row / 2 :=
      hleast.2 ⟨b, mem_rowsOf.1 ⟨row, hrow, hb⟩, hx⟩
    linarith
  obtain ⟨b, hb, hx⟩ := hleast.1
  obtain ⟨row, hrow, hb⟩ := mem_rowsOf.2 hb
  obtain ⟨_, hstrip⟩ := h.strip row hrow
  -- The box at zero is not left of its row, so no row is wider than its row.
  have hstart : axis - spread style row / 2 ≤ 0 := hx ▸ (hstrip.spans.within b hb).1
  have hroom : spread style row = 2 * axis := le_antisymm (hle row hrow) (by linarith)
  refine List.max?_eq_some_iff.2 ⟨hroom ▸ List.mem_map_of_mem hrow, ?_⟩
  intro room hmem
  obtain ⟨other, hother, rfl⟩ := List.mem_map.1 hmem
  exact hle other hother

/-- Then twice as far as the axis is where the rightmost box ends. -/
theorem Stacked.right {axis y : Rat} (h : Stacked style axis y (rowsOf placed))
    (hleast : IsLeast {x | ∃ b ∈ placed, b.x = x} 0) :
    IsGreatest {x | ∃ b ∈ placed, b.x + b.width = x} (2 * axis) := by
  obtain ⟨hmem, hle⟩ := List.max?_eq_some_iff.1 (h.widest hleast)
  constructor
  -- The last box of the widest row ends there.
  · obtain ⟨row, hrow, hroom⟩ := List.mem_map.1 hmem
    obtain ⟨_, hstrip⟩ := h.strip row hrow
    obtain ⟨b, hb, hx⟩ := hstrip.spans.exists_last
    refine ⟨b, mem_rowsOf.1 ⟨row, hrow, hb⟩, ?_⟩
    rw [hx, hroom]
    ring
  · rintro x ⟨b, hb, rfl⟩
    obtain ⟨row, hrow, hb⟩ := mem_rowsOf.2 hb
    obtain ⟨_, hstrip⟩ := h.strip row hrow
    have hend := (hstrip.spans.within b hb).2
    have hroom := hle _ (List.mem_map_of_mem (f := spread style) hrow)
    linarith

/-- The tallest box of a row is as tall as one of its boxes, and none is taller.
-/
theorem isGreatest_tallest {row : List (Placed ι Rat)} (hne : row ≠ []) :
    IsGreatest {height | ∃ b ∈ row, b.height = height} (tallest row) := by
  obtain ⟨height, hheight⟩ := Option.isSome_iff_exists.1
    (List.isSome_max?_of_ne_nil (mt List.map_eq_nil_iff.1 hne : row.map Placed.height ≠ []))
  obtain ⟨hmem, hle⟩ := List.max?_eq_some_iff.1 hheight
  rw [tallest, hheight, Option.getD_some]
  refine ⟨List.mem_map.1 hmem, ?_⟩
  rintro _ ⟨b, hb, rfl⟩
  exact hle _ (List.mem_map_of_mem hb)

/-- Rows one below the other end where their tallest boxes and the gaps between
them do. -/
theorem Stacked.depth {axis y : Rat} {rows : List (List (Placed ι Rat))}
    (h : Stacked style axis y rows) (hne : rows ≠ []) (hgap : 0 ≤ style.gapY)
    (hheights : ∀ row ∈ rows, ∀ b ∈ row, 0 ≤ b.height) :
    IsGreatest {z | ∃ row ∈ rows, ∃ b ∈ row, b.y + b.height = z}
      (y + span style.gapY (rows.map tallest)) := by
  induction rows generalizing y with
  | nil => exact absurd rfl hne
  | cons row rest ih =>
    obtain ⟨hstrip, hstacked⟩ := h
    obtain ⟨hrow, hrest⟩ := List.forall_mem_cons.1 hheights
    obtain ⟨⟨highest, hhighest, htallest⟩, hle⟩ := isGreatest_tallest hstrip.spans.ne_nil
    -- A last row ends with its tallest box; any other one ends above the rows below.
    by_cases hlast : rest = []
    · subst hlast
      rw [List.map_singleton, span_singleton]
      constructor
      · refine ⟨row, List.mem_singleton_self row, highest, hhighest, ?_⟩
        rw [hstrip.y highest hhighest, htallest]
      · rintro z ⟨other, hother, b, hb, rfl⟩
        cases List.mem_singleton.1 hother
        rw [hstrip.y b hb]
        exact add_le_add_right (hle ⟨b, hb, rfl⟩) y
    · have hroom : 0 ≤ span style.gapY (rest.map tallest) := by
        refine span_nonneg hgap ?_ (mt List.map_eq_nil_iff.1 hlast)
        intro height hmem
        obtain ⟨other, hother, rfl⟩ := List.mem_map.1 hmem
        obtain ⟨_, hstripOther⟩ := hstacked.strip other hother
        obtain ⟨c, hc, hheight⟩ := (isGreatest_tallest hstripOther.spans.ne_nil).1
        exact hheight ▸ hrest other hother c hc
      obtain ⟨⟨lowest, hlowest, hends⟩, hbelow⟩ := ih hstacked hlast hrest
      have hend : y + span style.gapY ((row :: rest).map tallest) =
          y + (tallest row + style.gapY) + span style.gapY (rest.map tallest) := by
        rw [List.map_cons, span_cons]
        ring
      rw [hend]
      refine ⟨⟨lowest, List.mem_cons_of_mem row hlowest, hends⟩, ?_⟩
      rintro z ⟨other, hother, b, hb, rfl⟩
      rcases List.mem_cons.1 hother with rfl | hother
      · have hheight : b.height ≤ tallest other := hle ⟨b, hb, rfl⟩
        rw [hstrip.y b hb]
        linarith
      · exact hbelow ⟨other, hother, b, hb, rfl⟩

/-- Then this is where the lowest box ends. -/
theorem Stacked.bottom {axis : Rat} (h : Stacked style axis 0 (rowsOf placed))
    (hne : placed ≠ []) (hgap : 0 ≤ style.gapY) (hheights : ∀ b ∈ placed, 0 ≤ b.height) :
    IsGreatest {z | ∃ b ∈ placed, b.y + b.height = z}
      (span style.gapY ((rowsOf placed).map tallest)) := by
  have hrows : rowsOf placed ≠ [] := by
    obtain ⟨b, hb⟩ := List.exists_mem_of_ne_nil placed hne
    obtain ⟨row, hrow, _⟩ := mem_rowsOf.2 hb
    exact List.ne_nil_of_mem hrow
  -- The lowest end is that of the last row, since no gap is negative.
  have hdepth := h.depth hrows hgap fun row hrow b hb => hheights b (mem_rowsOf.1 ⟨row, hrow, hb⟩)
  rw [zero_add] at hdepth
  obtain ⟨⟨row, hrow, b, hb, hend⟩, hle⟩ := hdepth
  refine ⟨⟨b, mem_rowsOf.1 ⟨row, hrow, hb⟩, hend⟩, ?_⟩
  rintro z ⟨c, hc, rfl⟩
  obtain ⟨other, hother, hc⟩ := mem_rowsOf.2 hc
  exact hle ⟨other, hother, c, hc, rfl⟩

/-! ### The whole layout -/

/-- The bounds of boxes behind the origin are where the last of them end. -/
theorem bounds_of_isGreatest {width height : Rat} (hnonneg : ∀ b ∈ placed, b.Nonneg)
    (hwidth : IsGreatest {x | ∃ b ∈ placed, b.x + b.width = x} width)
    (hheight : IsGreatest {z | ∃ b ∈ placed, b.y + b.height = z} height) :
    bounds placed = .ok (width, height) := by
  obtain ⟨⟨rightmost, hright, rfl⟩, hwidth⟩ := hwidth
  obtain ⟨⟨lowest, hlow, rfl⟩, hheight⟩ := hheight
  have hbounds := bounds_exact placed
  -- The room starts at nothing, which no box behind the origin ends in front of.
  have hle : (placed.foldl reach (0, 0)).1 ≤ rightmost.x + rightmost.width ∧
      (placed.foldl reach (0, 0)).2 ≤ lowest.y + lowest.height := by
    refine foldl_reach_le (fun b hb => ⟨hwidth ⟨b, hb, rfl⟩, hheight ⟨b, hb, rfl⟩⟩) ⟨?_, ?_⟩
    · exact add_nonneg (hnonneg rightmost hright).x (hnonneg rightmost hright).width
    · exact add_nonneg (hnonneg lowest hlow).y (hnonneg lowest hlow).height
  rw [hbounds, Except.ok.injEq]
  exact Prod.ext (le_antisymm hle.1 (le_bounds hbounds hright).1)
    (le_antisymm hle.2 (le_bounds hbounds hlow).2)

section

variable [DecidableEq ι] {diagram : Diagram ι}

/-- The rows of a layout lie around an axis, from zero on downward. -/
theorem stacked_place (h : place measure style diagram = .ok placed) (hgap : 0 ≤ style.gapX)
    (hsizes : ∀ box ∈ diagram.boxes, ∀ b, sized measure style box = .ok b → b.Nonneg) :
    ∃ axis, Stacked style axis 0 (rowsOf placed) := by
  obtain ⟨unshifted, hunshifted, h⟩ := bind_eq_ok.1 h
  obtain ⟨left, rfl, _⟩ := shifted_of_shiftToZero h
  have hstacked := stacked_placeRows hunshifted hgap (layers_orderedRows diagram)
    (fun row hrow => (perm_of_mem_orderedRows hrow).1)
    (fun row hrow box hbox => hsizes box (of_mem_orderedRows hrow hbox).1)
  rw [decimal_exact, Int.cast_zero, zero_div] at hstacked
  exact ⟨0 - left, rowsOf_shifted left unshifted ▸ hstacked.shifted left⟩

/-- The leftmost box of a layout starts at zero. -/
theorem isLeast_place (h : place measure style diagram = .ok placed) (hne : placed ≠ []) :
    IsLeast {x | ∃ b ∈ placed, b.x = x} 0 := by
  obtain ⟨unshifted, _, h⟩ := bind_eq_ok.1 h
  obtain ⟨left, rfl, hleft⟩ := shifted_of_shiftToZero h
  obtain ⟨hmem, hle⟩ := List.min?_eq_some_iff.1 (hleft (mt List.map_eq_nil_iff.2 hne))
  constructor
  · obtain ⟨b, hb, hx⟩ := List.mem_map.1 hmem
    exact ⟨b.shifted left, List.mem_map_of_mem hb, sub_eq_zero.2 hx⟩
  · rintro x ⟨b, hb, rfl⟩
    obtain ⟨c, hc, rfl⟩ := List.mem_map.1 hb
    exact sub_nonneg.2 (hle c.x (List.mem_map_of_mem hc))

/-- Rows are centred, and bounds are tight. Where a diagram has boxes and
neither a gap nor a size is less than nothing, there is a layout whose leftmost
box starts at zero. All of its rows lie around half of the room that the widest
of them takes. Its bounds are this room, and the heights of the tallest boxes
of its rows with a gap from each row to the next. -/
theorem centred_place (hne : diagram.boxes ≠ []) (hmeasured : Measured measure style diagram)
    (hgapX : 0 ≤ style.gapX) (hgapY : 0 ≤ style.gapY)
    (hsizes : ∀ box ∈ diagram.boxes, ∀ b, sized measure style box = .ok b → b.Nonneg) :
    ∃ placed widest, place measure style diagram = .ok placed ∧
      IsLeast {x | ∃ b ∈ placed, b.x = x} 0 ∧
      ((rowsOf placed).map (spread style)).max? = some widest ∧
      (∀ row ∈ rowsOf placed, CentredOn (widest / 2) row) ∧
      bounds placed = .ok (widest, span style.gapY ((rowsOf placed).map tallest)) := by
  obtain ⟨placed, hplaced⟩ := exists_place hmeasured
  have hplacedNe : placed ≠ [] := by
    obtain ⟨box, hbox⟩ := List.exists_mem_of_ne_nil _ hne
    obtain ⟨b, hb, _⟩ := List.mem_map.1 ((mem_seats_place hplaced).2 ⟨hbox, rfl⟩)
    exact List.ne_nil_of_mem hb
  obtain ⟨axis, hstacked⟩ := stacked_place hplaced hgapX hsizes
  have hleast := isLeast_place hplaced hplacedNe
  have hnonneg := nonneg_place hplaced hgapY hsizes
  have hbottom := hstacked.bottom hplacedNe hgapY fun b hb => (hnonneg b hb).height
  -- The leftmost box is at zero, so the axis is in the middle of the widest row.
  refine ⟨placed, 2 * axis, hplaced, hleast, hstacked.widest hleast, ?_,
    bounds_of_isGreatest hnonneg (hstacked.right hleast) hbottom⟩
  intro row hrow
  obtain ⟨_, hstrip⟩ := hstacked.strip row hrow
  refine ⟨_, _, hstrip.spans, ?_⟩
  ring

end

/-- Two boxes below a third: the upper row is less wide than the lower one, and
both lie around the middle of the lower one. -/
theorem centred_place_fan :
    place Sample.flat Style.default Sample.fan = .ok Sample.placedFan ∧
    rowsOf Sample.placedFan =
      [[Sample.seat 1 80 0 0 0], [Sample.seat 2 0 90 0 1, Sample.seat 3 160 90 1 1]] ∧
    (∀ row ∈ rowsOf Sample.placedFan, CentredOn 130 row) ∧
    bounds Sample.placedFan = .ok (260, 124) := by
  have hne : Sample.fan.boxes ≠ [] := List.cons_ne_nil _ _
  obtain ⟨placed, widest, hplaced, _, _, hcentred, hbounds⟩ :=
    centred_place hne
      (Sample.measured_flat [1, 2, 3] [Sample.arrow 1 2 "1->2", Sample.arrow 1 3 "1->3"])
      (by decide) (by decide) Sample.nonneg_fan
  cases Sample.place_fan.symm.trans hplaced
  have hrows : rowsOf Sample.placedFan =
      [[Sample.seat 1 80 0 0 0], [Sample.seat 2 0 90 0 1, Sample.seat 3 160 90 1 1]] := by
    cbv
  have hextent : bounds Sample.placedFan = .ok (260, 124) := by cbv
  -- The bounds are known, so they tell the width that the axis is half of.
  have hwidest : 260 = widest :=
    congrArg Prod.fst (Except.ok.inj (hextent.symm.trans hbounds))
  have haxis : widest / 2 = 130 := by
    rw [← hwidest]
    norm_num
  exact ⟨Sample.place_fan, hrows, haxis ▸ hcentred, hextent⟩

end Flowchart.Layout
