import Mathlib.Data.Rat.Cast.CharZero
import Flowchart.Number.Exact
import Flowchart.Proofs.Layout.Rows

/-!
# `Flowchart.Proofs.Layout.Spots`: the spots of rows that go downward

The spots of rows come row by row and column by column. If the rows go downward,
that is an order of the spots, and the spots that show one row are the columns of a
row, counted from zero. If no row is empty besides, nothing is lost on the way: the
spots tell the rows. A layout over fractions shows all of a spot, so it tells them too.

* `sorted_spots`, `columns_spots`: the spots of rows are in order, and the
  columns of a row are counted from zero;
* `eq_of_entries`: rows are told by the boxes in each layer;
* `eq_of_shown`: rows are told by what is shown at their spots.
-/

set_option autoImplicit false

namespace Flowchart.Layout

variable {ι : Type}

/-! ### The order of spots -/

/-- One spot comes before another one: in a row above, or to the left in the
same row. -/
def Spot.Before (s t : Spot ι) : Prop :=
  s.row < t.row ∨ s.row = t.row ∧ s.column < t.column

/-- The spots of a row are in the row. -/
theorem row_of_mem_spots {row : Row ι} {s : Spot ι} (h : s ∈ row.spots) : s.row = row.layer := by
  obtain ⟨_, _, rfl⟩ := List.mem_map.1 h
  rfl

/-- The columns of a row are counted from zero on. -/
theorem columns_row (row : Row ι) : row.spots.map Spot.column = List.range row.boxes.length := by
  rw [Row.spots, spotsFrom, List.map_map, List.range_eq_range']
  exact List.zipIdx_map_snd 0 row.boxes

variable {rows : List (Row ι)}

/-- The spots of rows that go downward are in order. -/
theorem sorted_spots (h : rows.Pairwise fun above row => above.layer < row.layer) :
    (spots rows).Pairwise Spot.Before := by
  refine List.pairwise_flatMap.2 ⟨?_, h.imp ?_⟩
  · intro row _
    have hcolumns : (row.spots.map Spot.column).Pairwise (· < ·) := by
      rw [columns_row]
      exact List.pairwise_lt_range
    refine (List.pairwise_map.1 hcolumns).imp_of_mem fun hs ht hlt => .inr ⟨?_, hlt⟩
    rw [row_of_mem_spots hs, row_of_mem_spots ht]
  · intro above row hlt s hs t ht
    rw [← row_of_mem_spots hs, ← row_of_mem_spots ht] at hlt
    exact .inl hlt

/-- The spots in a row. -/
def inRow (row : Nat) (spots : List (Spot ι)) : List (Spot ι) :=
  spots.filter fun s => s.row = row

/-- The spots of rows that go downward lie in a row if the row is one of them. -/
theorem inRow_spots (h : rows.Pairwise fun above row => above.layer < row.layer) (layer : Nat) :
    inRow layer (spots rows) = [] ∨ ∃ row ∈ rows, inRow layer (spots rows) = row.spots := by
  induction rows with
  | nil => exact .inl rfl
  | cons first rest ih =>
    obtain ⟨hfirst, hrest⟩ := List.pairwise_cons.1 h
    have hcons : inRow layer (spots (first :: rest)) =
        inRow layer first.spots ++ inRow layer (spots rest) := by
      rw [inRow, spots, List.flatMap_cons, List.filter_append]
      rfl
    rw [hcons]
    by_cases heq : first.layer = layer
    -- The rows behind it are of greater layers.
    · have hall : inRow layer first.spots = first.spots :=
        List.filter_eq_self.2 fun s hs => by simpa [row_of_mem_spots hs] using heq
      have hnone : inRow layer (spots rest) = [] := by
        refine List.filter_eq_nil_iff.2 ?_
        intro s hs
        obtain ⟨row, hrow, hs⟩ := List.mem_flatMap.1 hs
        have hlt := hfirst row hrow
        have hrowOf := row_of_mem_spots hs
        simp only [decide_eq_true_eq]
        omega
      exact .inr ⟨first, List.mem_cons_self, by rw [hall, hnone, List.append_nil]⟩
    · have hnone : inRow layer first.spots = [] :=
        List.filter_eq_nil_iff.2 fun s hs => by simpa [row_of_mem_spots hs] using heq
      rw [hnone, List.nil_append]
      rcases ih hrest with hnil | ⟨row, hrow, hspots⟩
      · exact .inl hnil
      · exact .inr ⟨row, List.mem_cons_of_mem first hrow, hspots⟩

/-- The columns of each row are counted from zero. -/
theorem columns_spots (h : rows.Pairwise fun above row => above.layer < row.layer) (layer : Nat) :
    (inRow layer (spots rows)).map Spot.column =
      List.range (inRow layer (spots rows)).length := by
  rcases inRow_spots h layer with hnil | ⟨row, _, hspots⟩
  · rw [hnil]
    rfl
  · rw [hspots, columns_row, Row.spots, spotsFrom, List.length_map, List.length_zipIdx]

/-! ### What spots tell -/

/-- The first of some rows that go downward has the boxes of its layer. -/
theorem filter_entries_cons {row : Row ι} {rest : List (Row ι)}
    (h : (row :: rest).Pairwise fun above row => above.layer < row.layer) :
    (entries (row :: rest)).filter (fun entry => entry.2 = row.layer) =
      row.boxes.map fun box => (box, row.layer) := by
  have hkept : (row.boxes.map fun box => (box, row.layer)).filter
      (fun entry => entry.2 = row.layer) = row.boxes.map fun box => (box, row.layer) := by
    refine List.filter_eq_self.2 fun entry hentry => ?_
    obtain ⟨box, _, rfl⟩ := List.mem_map.1 hentry
    exact decide_eq_true rfl
  -- The rows behind lie in greater layers.
  have hdropped : (entries rest).filter (fun entry => entry.2 = row.layer) = [] := by
    refine List.filter_eq_nil_iff.2 fun entry hentry => ?_
    obtain ⟨below, hbelow, _, hlayer⟩ := mem_entries.1 hentry
    have hlt := (List.pairwise_cons.1 h).1 below hbelow
    simp only [decide_eq_true_eq]
    omega
  have happend := congrArg₂ (· ++ ·) hkept hdropped
  rwa [← List.filter_append, List.append_nil] at happend

/-- In rows that go downward, no entry is above the first row. -/
theorem layer_le_of_mem_entries {row : Row ι} {rest : List (Row ι)} {box : Box ι} {layer : Nat}
    (h : (row :: rest).Pairwise fun above row => above.layer < row.layer)
    (hmem : (box, layer) ∈ entries (row :: rest)) : row.layer ≤ layer := by
  obtain ⟨other, hother, _, rfl⟩ := mem_entries.1 hmem
  rcases List.mem_cons.1 hother with rfl | hother
  · exact Nat.le_refl _
  · exact ((List.pairwise_cons.1 h).1 other hother).le

/-- Rows that go downward and have boxes are told by the boxes in each layer. -/
theorem eq_of_entries {rows rows' : List (Row ι)}
    (h : rows.Pairwise fun above row => above.layer < row.layer)
    (h' : rows'.Pairwise fun above row => above.layer < row.layer)
    (hoccupied : ∀ row ∈ rows, row.boxes ≠ []) (hoccupied' : ∀ row ∈ rows', row.boxes ≠ [])
    (heq : entries rows = entries rows') : rows = rows' := by
  induction rows generalizing rows' with
  | nil =>
    cases rows' with
    | nil => rfl
    | cons row' rest' => simp [entries, hoccupied' row' List.mem_cons_self] at heq
  | cons row rest ih =>
    cases rows' with
    | nil => simp [entries, hoccupied row List.mem_cons_self] at heq
    | cons row' rest' =>
      -- No entry is above the first row, so the first rows of both are in the same layer.
      have hle {row row' : Row ι} {rest rest' : List (Row ι)}
          (h : (row :: rest).Pairwise fun above row => above.layer < row.layer)
          (hne : row'.boxes ≠ []) (heq : entries (row :: rest) = entries (row' :: rest')) :
          row.layer ≤ row'.layer := by
        obtain ⟨box, hbox⟩ := List.exists_mem_of_ne_nil _ hne
        exact layer_le_of_mem_entries h (heq ▸ mem_entries.2 ⟨row', List.mem_cons_self, hbox, rfl⟩)
      have hlayer : row.layer = row'.layer := Nat.le_antisymm
        (hle h (hoccupied' _ List.mem_cons_self) heq)
        (hle h' (hoccupied _ List.mem_cons_self) heq.symm)
      have hfirst := filter_entries_cons h
      rw [heq, hlayer, filter_entries_cons h'] at hfirst
      have hboxes := congrArg (List.map Prod.fst) hfirst
      simp only [List.map_map, Function.comp_def, List.map_id'] at hboxes
      obtain rfl : row = row' := by
        cases row
        cases row'
        simp_all
      rw [ih (List.pairwise_cons.1 h).2 (List.pairwise_cons.1 h').2
        (List.forall_mem_cons.1 hoccupied).2 (List.forall_mem_cons.1 hoccupied').2
        (List.append_cancel_left heq)]

/-- They are also told by what a layout over fractions shows at their spots. -/
theorem eq_of_shown {rows rows' : List (Row ι)}
    (h : rows.Pairwise fun above row => above.layer < row.layer)
    (h' : rows'.Pairwise fun above row => above.layer < row.layer)
    (hoccupied : ∀ row ∈ rows, row.boxes ≠ []) (hoccupied' : ∀ row ∈ rows', row.boxes ≠ [])
    (heq : (spots rows).map (Spot.shown : Spot ι → Box ι × Rat × Rat) =
      (spots rows').map Spot.shown) :
    rows = rows' := by
  refine eq_of_entries h h' hoccupied hoccupied' ?_
  rw [← entries_spots, ← entries_spots]
  -- Whole numbers can be read back from the fractions that they are shown as.
  have hinjective : Function.Injective (Spot.shown : Spot ι → Box ι × Rat × Rat) := by
    rintro ⟨box, row, column⟩ ⟨box', row', column'⟩ hst
    change (box, ((row : Int) : Rat), ((column : Int) : Rat)) =
      (box', ((row' : Int) : Rat), ((column' : Int) : Rat)) at hst
    simpa using hst
  rw [List.map_injective_iff.2 hinjective heq]

end Flowchart.Layout
