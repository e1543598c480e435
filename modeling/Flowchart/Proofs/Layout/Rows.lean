import Flowchart.Layout.Query
import Flowchart.Proofs.Except
import Flowchart.Proofs.Layering.Descent

/-!
# `Flowchart.Proofs.Layout.Rows`: boxes stand in the rows of their layers

Boxes are grouped by layers, sorted within each of them and given places. None
of this takes a box away, adds one, or moves one to another row. So the row in
which a layout shows an id is the layer of that id, and a layout shows the ids
of the diagram.

* `entries`: the boxes of rows, each with its layer;
* `layerOf_lt_or_reaches`: where there is no cycle, boxes lie below their
  predecessors;
* `mem_entries_orderedRows`: the rows of a diagram hold its boxes, each in its
  layer;
* `Spot`, `spots`: where the boxes of rows stand;
* `shown_place`: a layout shows the rows spot by spot;
* `seats_place`: a layout keeps what the rows hold;
* `rowOf?_place`: the row in which a layout shows an id.
-/

set_option autoImplicit false

namespace Flowchart.Layout

variable {ι : Type}

/-! ### Grouping and sorting -/

/-- The boxes of rows, each with the layer of its row. -/
def entries (rows : List (Row ι)) : List (Box ι × Nat) :=
  rows.flatMap fun row => row.boxes.map fun box => (box, row.layer)

/-- An entry is a box in a row, with the layer of the row. -/
theorem mem_entries {rows : List (Row ι)} {box : Box ι} {layer : Nat} :
    (box, layer) ∈ entries rows ↔ ∃ row ∈ rows, box ∈ row.boxes ∧ row.layer = layer := by
  simp [entries, and_left_comm]

/-- A row has some boxes, those of its layer in order. -/
theorem row?_eq_some {layered : List (Nat × Box ι)} {layer : Nat} {row : Row ι}
    (h : row? layered layer = some row) : row.layer = layer ∧ row.boxes ≠ [] ∧
      row.boxes = (layered.filter fun entry => entry.1 == layer).map Prod.snd := by
  unfold row? at h
  split at h
  · cases h
  · rename_i hne
    cases h
    exact ⟨rfl, hne, rfl⟩

/-- A row has the boxes of its layer. -/
theorem mem_row? {layered : List (Nat × Box ι)} {layer : Nat} {row : Row ι} {box : Box ι}
    (h : row? layered layer = some row) : box ∈ row.boxes ↔ (layer, box) ∈ layered := by
  rw [(row?_eq_some h).2.2]
  simp

/-- There is a row where there is a box. -/
theorem isSome_row? {layered : List (Nat × Box ι)} {layer : Nat} {box : Box ι}
    (h : (layer, box) ∈ layered) : ∃ row, row? layered layer = some row := by
  unfold row?
  split
  · rename_i hrow
    have hbox : box ∈ (layered.filter fun entry => entry.1 == layer).map Prod.snd := by
      simpa using h
    rw [hrow] at hbox
    cases hbox
  · exact ⟨_, rfl⟩

/-- No layer lies below the lowest one. -/
theorem le_lowest {layer : Nat} {layers : List Nat} (start : Nat) (h : layer ∈ start :: layers) :
    layer ≤ layers.foldl max start := by
  induction layers generalizing layer start with
  | nil => exact Nat.le_of_eq (List.mem_singleton.1 h)
  | cons next layers ih =>
    rw [List.foldl_cons]
    simp only [List.mem_cons] at h
    rcases h with rfl | rfl | h
    · exact Nat.le_trans (Nat.le_max_left _ _) (ih _ List.mem_cons_self)
    · exact Nat.le_trans (Nat.le_max_right _ _) (ih _ List.mem_cons_self)
    · exact ih _ (List.mem_cons_of_mem _ h)

variable [DecidableEq ι]

/-- The rows hold each box, in its layer. -/
theorem mem_entries_rows {boxes : List (Box ι)} {layers : Layers ι} {box : Box ι} {layer : Nat} :
    (box, layer) ∈ entries (rows boxes layers) ↔ box ∈ boxes ∧ layerOf layers box.id = layer := by
  have hlayered : ∀ (box : Box ι) (layer : Nat),
      (layer, box) ∈ boxes.map (fun box => (layerOf layers box.id, box)) ↔
        box ∈ boxes ∧ layerOf layers box.id = layer := by
    intro box layer
    simp
  rw [mem_entries, ← hlayered]
  constructor
  · rintro ⟨row, hrow, hbox, rfl⟩
    obtain ⟨layer, _, hrow⟩ := List.mem_filterMap.1 hrow
    rw [(row?_eq_some hrow).1]
    exact (mem_row? hrow).1 hbox
  · intro h
    -- The layer of the box is not below the lowest one, so its row was made.
    obtain ⟨row, hrow⟩ := isSome_row? h
    have hlayer := (row?_eq_some hrow).1
    refine ⟨row, List.mem_filterMap.2 ⟨layer, ?_, hrow⟩, (mem_row? hrow).2 h, hlayer⟩
    have hlayers := List.mem_map_of_mem (f := Prod.fst) h
    have hle := le_lowest 0 (List.mem_cons_of_mem 0 hlayers)
    exact List.mem_range.2 (Nat.lt_succ_of_le hle)

/-- A row that is sorted has the same boxes. -/
theorem mem_sortRow {predecessors : ι → List ι} {above boxes : List (Box ι)} {box : Box ι} :
    box ∈ sortRow predecessors above boxes ↔ box ∈ boxes := by
  simp [sortRow]

/-- Rows that are sorted below another one hold the same boxes in the same
layers. -/
theorem mem_entries_sortBelow {predecessors : ι → List ι} {above : List (Box ι)}
    {rows : List (Row ι)} {entry : Box ι × Nat} :
    entry ∈ entries (sortBelow predecessors above rows) ↔ entry ∈ entries rows := by
  induction rows generalizing above with
  | nil => rfl
  | cons row rows ih =>
    have hrest := @ih (sortRow predecessors above row.boxes)
    simp only [entries, sortBelow, List.flatMap_cons, List.mem_append, List.mem_map,
      mem_sortRow] at hrest ⊢
    rw [hrest]

/-- Rows that are sorted hold the same boxes in the same layers. -/
theorem mem_entries_sortRows {predecessors : ι → List ι} {rows : List (Row ι)}
    {entry : Box ι × Nat} :
    entry ∈ entries (sortRows predecessors rows) ↔ entry ∈ entries rows := by
  cases rows with
  | nil => rfl
  | cons first rest =>
    have hrest := @mem_entries_sortBelow _ _ predecessors first.boxes rest entry
    simp only [entries, sortRows, List.flatMap_cons, List.mem_append] at hrest ⊢
    rw [hrest]

/-- Every box of a diagram has a layer. -/
theorem lookup_layers {diagram : Diagram ι} {id : ι} (h : id ∈ diagram.ids) :
    (layers diagram).lookup id = some (layerOf (layers diagram) id) := by
  have hsome := @lookup_resolveAll ι _ (predecessorsOf diagram) id h
  rw [← assign_eq] at hsome
  obtain ⟨layer, hlayer⟩ := Option.isSome_iff_exists.1 hsome
  change (layers diagram).lookup id = some layer at hlayer
  rw [layerOf, hlayer, Option.getD_some]

/-- A box lies below each of its predecessors, those that it leads to aside. -/
theorem layerOf_lt_or_reaches {diagram : Diagram ι} {m n : ι}
    (h : Precedes (predecessorsOf diagram) m n) (hn : n ∈ diagram.ids) :
    layerOf (layers diagram) m < layerOf (layers diagram) n ∨
      Reaches (predecessorsOf diagram) n m := by
  rcases fits_assign (predecessorsOf diagram) m n _ h (lookup_layers hn) with
    ⟨above, hlt, habove⟩ | hback
  · left
    change (layers diagram).lookup m = some above at habove
    rwa [layerOf, habove]
  · exact .inr hback

/-- The rows of a diagram hold its boxes, each in its layer. -/
theorem mem_entries_orderedRows {diagram : Diagram ι} {box : Box ι} {layer : Nat} :
    (box, layer) ∈ entries (orderedRows diagram) ↔
      box ∈ diagram.boxes ∧ layerOf (layers diagram) box.id = layer := by
  unfold orderedRows
  rw [mem_entries_sortRows]
  exact mem_entries_rows

/-- A box in a row is one of the diagram, in the row of its layer. -/
theorem of_mem_orderedRows {diagram : Diagram ι} {row : Row ι} {box : Box ι}
    (hrow : row ∈ orderedRows diagram) (hbox : box ∈ row.boxes) :
    box ∈ diagram.boxes ∧ layerOf (layers diagram) box.id = row.layer :=
  mem_entries_orderedRows.1 (mem_entries.2 ⟨row, hrow, hbox, rfl⟩)

/-! ### Placing -/

variable {α : Type} [Arithmetic α] {measure : Measure α} {style : Style α}
  {diagram : Diagram ι} {placed : List (Placed ι α)}

open Arithmetic

omit [DecidableEq ι] in
/-- A box that is measured stays the box. -/
theorem box_of_sized {box : Box ι} {b : Sized ι α} (h : sized measure style box = .ok b) :
    b.box = box := by
  obtain ⟨width, _, h⟩ := bind_eq_ok.1 h
  obtain ⟨height, _, h⟩ := bind_eq_ok.1 h
  cases h
  rfl

omit [DecidableEq ι] in
/-- The boxes of a row are sized one by one. -/
theorem boxes_of_sized {boxes : List (Box ι)} {sizes : List (Sized ι α)}
    (h : boxes.mapM (sized measure style) = .ok sizes) : sizes.map Sized.box = boxes := by
  simpa using map_of_mapM id Sized.box (fun _ _ _ => box_of_sized) h

/-- The spot of a box: its row, and its column in that row. -/
structure Spot (ι : Type) where
  box : Box ι
  row : Nat
  column : Nat

/-- Boxes of a row from a column on, each at its spot. -/
def spotsFrom (row column : Nat) (boxes : List (Box ι)) : List (Spot ι) :=
  (boxes.zipIdx column).map fun entry => ⟨entry.1, row, entry.2⟩

/-- The spots of a row, from left to right. -/
def Row.spots (row : Row ι) : List (Spot ι) :=
  spotsFrom row.layer 0 row.boxes

/-- The spots of rows, from the top down. -/
def spots (rows : List (Row ι)) : List (Spot ι) :=
  rows.flatMap Row.spots

/-- What a layout shows at a spot. -/
def Spot.shown (spot : Spot ι) : Box ι × α × α :=
  (spot.box, whole spot.row, whole spot.column)

/-- What a placed box shows of its spot. -/
def Placed.shown (b : Placed ι α) : Box ι × α × α :=
  (b.box, b.row, b.column)

omit [DecidableEq ι] in
/-- Boxes that are placed in a row are shown at the spots of the row, from left
to right. -/
theorem shown_placeFrom {row : Nat} {y x : α} {column : Nat} {boxes : List (Sized ι α)}
    (h : placeFrom style row y column x boxes = .ok placed) :
    placed.map Placed.shown = (spotsFrom row column (boxes.map Sized.box)).map Spot.shown := by
  induction boxes generalizing column x placed with
  | nil =>
    cases h
    rfl
  | cons b rest ih =>
    obtain ⟨advance, _, h⟩ := bind_eq_ok.1 h
    obtain ⟨next, _, h⟩ := bind_eq_ok.1 h
    obtain ⟨others, hothers, h⟩ := bind_eq_ok.1 h
    cases h
    rw [List.map_cons, ih hothers]
    rfl

omit [DecidableEq ι] in
/-- Rows are placed spot by spot. -/
theorem shown_placeRows {y : α} {rows : List (Row ι)}
    (h : placeRows measure style y rows = .ok placed) :
    placed.map Placed.shown = (spots rows).map Spot.shown := by
  induction rows generalizing y placed with
  | nil =>
    cases h
    rfl
  | cons row rest ih =>
    obtain ⟨boxes, hboxes, h⟩ := bind_eq_ok.1 h
    rw [spots, List.flatMap_cons, List.map_append, Row.spots, ← boxes_of_sized hboxes]
    cases boxes with
    -- An empty row takes no room.
    | nil => exact ih h
    | cons first others =>
      obtain ⟨tallest, _, h⟩ := bind_eq_ok.1 h
      obtain ⟨width, _, h⟩ := bind_eq_ok.1 h
      obtain ⟨opposite, _, h⟩ := bind_eq_ok.1 h
      obtain ⟨x, _, h⟩ := bind_eq_ok.1 h
      obtain ⟨inRow, hinRow, h⟩ := bind_eq_ok.1 h
      obtain ⟨drop, _, h⟩ := bind_eq_ok.1 h
      obtain ⟨next, _, h⟩ := bind_eq_ok.1 h
      obtain ⟨below, hbelow, h⟩ := bind_eq_ok.1 h
      cases h
      rw [List.map_append, shown_placeFrom hinRow, ih hbelow]
      rfl

omit [DecidableEq ι] in
/-- Boxes that are shifted are shown at the same spots. -/
theorem shown_shiftToZero {shifted : List (Placed ι α)} (h : shiftToZero placed = .ok shifted) :
    shifted.map Placed.shown = placed.map Placed.shown := by
  cases placed with
  | nil =>
    cases h
    rfl
  | cons first rest =>
    obtain ⟨left, _, h⟩ := bind_eq_ok.1 h
    refine map_of_mapM Placed.shown Placed.shown (fun b b' _ hb => ?_) h
    obtain ⟨x, _, hb⟩ := bind_eq_ok.1 hb
    cases hb
    rfl

/-- A layout shows the rows spot by spot. -/
theorem shown_place (h : place measure style diagram = .ok placed) :
    placed.map Placed.shown = (spots (orderedRows diagram)).map Spot.shown := by
  obtain ⟨unshifted, hunshifted, h⟩ := bind_eq_ok.1 h
  rw [shown_shiftToZero h, shown_placeRows hunshifted]

/-- Where a placed box is seen to stand: the box and its row. -/
def Placed.seat (b : Placed ι α) : Box ι × α :=
  (b.box, b.row)

omit [DecidableEq ι] in
/-- The spots of rows hold the boxes, each in its row. -/
theorem entries_spots (rows : List (Row ι)) :
    (spots rows).map (fun spot => (spot.box, spot.row)) = entries rows := by
  have hspots : ∀ (row column : Nat) (boxes : List (Box ι)),
      (spotsFrom row column boxes).map (fun spot => (spot.box, spot.row)) =
        boxes.map fun box => (box, row) := by
    intro row column boxes
    induction boxes generalizing column with
    | nil => rfl
    | cons box boxes ih => rw [List.map_cons, ← ih (column + 1)]; rfl
  rw [spots, List.map_flatMap, entries]
  exact congrArg (List.flatMap · rows) (funext fun row => hspots _ _ _)

/-- A layout keeps what the rows hold. -/
theorem seats_place (h : place measure style diagram = .ok placed) :
    placed.map Placed.seat =
      (entries (orderedRows diagram)).map fun entry => (entry.1, whole entry.2) := by
  have hshown := congrArg (List.map fun entry : Box ι × α × α => (entry.1, entry.2.1))
    (shown_place h)
  rw [List.map_map, List.map_map] at hshown
  rw [← entries_spots, List.map_map]
  exact hshown

/-- The boxes that a layout shows, and the rows that it shows them in. -/
theorem mem_seats_place (h : place measure style diagram = .ok placed) {box : Box ι} {row : α} :
    (box, row) ∈ placed.map Placed.seat ↔
      box ∈ diagram.boxes ∧ row = whole (layerOf (layers diagram) box.id : Nat) := by
  rw [seats_place h, List.mem_map]
  constructor
  · rintro ⟨⟨box, layer⟩, hentry, hseat⟩
    obtain ⟨hbox, rfl⟩ := mem_entries_orderedRows.1 hentry
    cases hseat
    exact ⟨hbox, rfl⟩
  · rintro ⟨hbox, rfl⟩
    exact ⟨(box, _), mem_entries_orderedRows.2 ⟨hbox, rfl⟩, rfl⟩

/-- The row in which a layout shows an id is the layer of the id. -/
theorem rowOf?_place (h : place measure style diagram = .ok placed) (id : ι) :
    rowOf? placed id =
      if id ∈ diagram.ids then some (whole (layerOf (layers diagram) id : Nat)) else none := by
  unfold rowOf?
  cases hfind : placed.reverse.find? fun b => b.box.id = id with
  -- An id of the diagram would be that of a box that is shown.
  | none =>
    have hid : id ∉ diagram.ids := by
      intro hid
      obtain ⟨box, hbox, rfl⟩ := List.mem_map.1 hid
      obtain ⟨b, hb, hseat⟩ := List.mem_map.1 ((mem_seats_place h).2 ⟨hbox, rfl⟩)
      have hother := List.find?_eq_none.1 hfind b (List.mem_reverse.2 hb)
      rw [(Prod.mk.inj hseat).1] at hother
      simp at hother
    rw [if_neg hid, Option.map_none]
  | some b =>
    have hb : b ∈ placed := List.mem_reverse.1 (List.mem_of_find?_eq_some hfind)
    obtain rfl : b.box.id = id := by simpa using List.find?_some hfind
    obtain ⟨hbox, hrow⟩ := (mem_seats_place h).1 (List.mem_map_of_mem hb)
    have hid : b.box.id ∈ diagram.ids := List.mem_map_of_mem hbox
    rw [if_pos hid, Option.map_some, hrow]

end Flowchart.Layout
