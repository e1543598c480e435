import Flowchart.Proofs.Layout.Ordering
import Flowchart.Proofs.Layout.Spots
import Flowchart.Proofs.Layout.Success
import Flowchart.Proofs.Layout.Tightness

/-!
# `Flowchart.Proofs.Layout.Arrangement`: a layout is complete and in order

A layout shows rows of boxes, one below the other, and counts the columns of
each row from zero. Together the rows hold every box once, in the row of its
layer. A row below another one is sorted by the mean column in which the row above
shows the predecessors of its boxes. So the columns that count are the final
ones, although every row is sorted on its own.

A predecessor counts once for each arrow that comes from it, and the mean is rounded
to a double. With repeated arrows the order can be another one than that by a mean
over the boxes, and in a diagram of some hundred thousand arrows two boxes can be
left in their order although their means differ. As long as the number of boxes times
the square of the number of arrows is below 2^52, the exact means decide.

* `Arranged`: rows that hold the boxes of a diagram, in an order by some weight;
* `arranged_orderedRows`, `arranged_exactly`: the rows of a diagram are arranged;
* `arranged_of_place`: what a layout shows;
* `not_arranged_by_exact_means`: what it does not show.
-/

set_option autoImplicit false

namespace Flowchart.Layout

variable {ι : Type} [DecidableEq ι]

/-! ### Rows -/

/-- The column of an id in a row, 0 if it stands elsewhere. -/
def columnIn (row : Row ι) (id : ι) : Nat :=
  (row.boxes.findIdx? fun box => box.id = id).getD 0

/-- The mean of the columns that some ids have in a row. An id elsewhere counts as
column 0, and so does the lack of any. -/
def meanOf (row : Row ι) (ids : List ι) : Rat :=
  if ids = [] then 0 else (ids.map fun id => (columnIn row id : Rat)).sum / ids.length

/-- The mean of the columns that the predecessors of a box have in the row above,
each of them counted once for each arrow that comes from it. -/
def meanColumn (diagram : Diagram ι) (above : Row ι) (box : Box ι) : Rat :=
  meanOf above ((diagram.predecessors box.id).map Subtype.val)

/-- Rows that hold the boxes of a diagram, in an order by some weight. -/
structure Arranged (diagram : Diagram ι) (weight : Row ι → Box ι → Rat) (rows : List (Row ι)) :
    Prop where
  /-- Every box has one place. -/
  complete : (rows.flatMap Row.boxes).Perm diagram.boxes
  /-- It is in the row of its layer. -/
  layered : ∀ row ∈ rows, ∀ box ∈ row.boxes, (layers diagram).lookup box.id = some row.layer
  descending : rows.Pairwise fun above row => above.layer < row.layer
  occupied : ∀ row ∈ rows, row.boxes ≠ []
  /-- The first row keeps the order of the boxes. -/
  first : ∀ row ∈ rows.head?, row.boxes.Sublist diagram.boxes
  /-- Any other row is sorted by what its boxes weigh below the row above it. -/
  sorted : rows.IsChain fun above row => SortedBy (weight above) diagram.boxes row.boxes

/-- Where no id is there twice, the last position of an id is the first. -/
theorem position?_eq {boxes : List (Box ι)} (h : (boxes.map Box.id).Nodup) (id : ι) :
    position? boxes id = boxes.findIdx? fun box => box.id = id := by
  -- The columns are counted from any start, since the rest of a row starts behind its first box.
  have hfrom : ∀ start, ((boxes.zipIdx start).filter fun entry => entry.1.id = id).getLast?.map
      Prod.snd = (boxes.findIdx? fun box => box.id = id).map (· + start) := by
    induction boxes with
    | nil => exact fun _ => rfl
    | cons box boxes ih =>
      intro start
      obtain ⟨hbox, hboxes⟩ := List.nodup_cons.1 h
      rw [List.zipIdx_cons, List.filter_cons, List.findIdx?_cons]
      by_cases heq : box.id = id
      · have hnone : (boxes.zipIdx (start + 1)).filter (fun entry => entry.1.id = id) = [] := by
          refine List.filter_eq_nil_iff.2 fun entry hentry hid => hbox ?_
          rw [heq, ← of_decide_eq_true hid]
          exact List.mem_map_of_mem (List.fst_mem_of_mem_zipIdx hentry)
        simp [heq, hnone]
      · simp only [heq, decide_false, Bool.false_eq_true, if_false]
        rw [ih hboxes, Option.map_map]
        congr 1
        funext n
        simp only [Function.comp_apply]
        omega
  have hzero := hfrom 0
  simpa [position?] using hzero

/-- The mean position of ids in a row is their mean column. -/
theorem meanPosition_eq_meanOf {row : Row ι} (h : (row.boxes.map Box.id).Nodup) (ids : List ι) :
    meanPosition row.boxes ids = meanOf row ids := by
  rw [meanPosition, meanOf]
  split
  · rename_i hnone
    simp [hnone]
  · simp only [position?_eq h]
    rfl

variable {diagram : Diagram ι}

/-- No id is twice in a row. -/
theorem nodup_of_mem_orderedRows (hids : diagram.ids.Nodup) {row : Row ι}
    (h : row ∈ orderedRows diagram) : (row.boxes.map Box.id).Nodup :=
  ((perm_of_mem_orderedRows h).2.map Box.id).nodup_iff.2
    (hids.sublist (List.filter_sublist.map Box.id))

/-- The rows of a diagram are arranged by mean columns, rounded to doubles. -/
theorem arranged_orderedRows (hids : diagram.ids.Nodup) :
    Arranged diagram (fun above box => Number.rounded (meanColumn diagram above box))
      (orderedRows diagram) where
  complete := perm_orderedRows (.of_map _ hids)
  layered row hrow box hbox := by
    obtain ⟨hmem, hlayer⟩ := of_mem_orderedRows hrow hbox
    rw [← hlayer]
    exact lookup_layers (List.mem_map_of_mem hmem)
  descending := layers_orderedRows diagram
  occupied _ hrow := (perm_of_mem_orderedRows hrow).1
  first row hrow := by
    rw [head_orderedRows diagram row hrow]
    exact List.filter_sublist
  sorted := by
    refine (sorted_orderedRows diagram).imp_of_mem_imp ?_
    intro above row habove _ hsorted
    -- No id is twice in a row, so every position that counts is the only one.
    have hweight : weight (fun id => (diagram.predecessors id).map Subtype.val) above.boxes =
        fun box => Number.rounded (meanColumn diagram above box) := by
      funext box
      rw [weight, meanPosition_eq_meanOf (nodup_of_mem_orderedRows hids habove)]
      rfl
    rwa [hweight] at hsorted

/-- A box has no more predecessors than there are arrows. -/
theorem length_predecessors_le (diagram : Diagram ι) (id : ι) :
    (diagram.predecessors id).length ≤ diagram.arrows.length := by
  rw [Diagram.predecessors, List.length_map]
  exact (List.length_filter_le _ _).trans (List.length_filterMap_le _ _)

/-- The rows of a diagram that is not too large are arranged by exact mean columns. -/
theorem arranged_exactly (hids : diagram.ids.Nodup)
    (hsmall : diagram.boxes.length * diagram.arrows.length ^ 2 < 2 ^ 52) :
    Arranged diagram (meanColumn diagram) (orderedRows diagram) where
  __ := arranged_orderedRows hids
  sorted := by
    refine (arranged_orderedRows hids).sorted.imp_of_mem_imp ?_
    intro above row habove _ hsorted
    have hnodup := nodup_of_mem_orderedRows hids habove
    have hlength : above.boxes.length ≤ diagram.boxes.length :=
      (perm_of_mem_orderedRows habove).2.length_eq.trans_le (List.length_filter_le _ _)
    have habove : above.boxes.length * diagram.arrows.length ^ 2 < 2 ^ 52 :=
      (Nat.mul_le_mul_right _ hlength).trans_lt hsmall
    have hcount (box : Box ι) : ((diagram.predecessors box.id).map Subtype.val).length ≤
        diagram.arrows.length := by
      rw [List.length_map]
      exact length_predecessors_le diagram box.id
    refine hsorted.imp fun {a b} hab => ?_
    simp only [meanColumn, ← meanPosition_eq_meanOf hnodup] at hab ⊢
    -- Means that are not rounded to the same are in that order, others are the same before
    -- rounding.
    rcases hab with hlt | ⟨heq, hsub⟩
    · refine .inl (lt_of_not_ge fun hge => ?_)
      exact absurd (Number.rounded_mono (meanPosition_nonneg _ _) hge) (not_le_of_gt hlt)
    · exact .inr ⟨meanPosition_eq_of_rounded (hcount a) (hcount b) habove heq, hsub⟩

/-- A layout is a complete, ordered placement of the boxes of a diagram. There
is one wherever the texts can be measured and no operation refuses its lengths.
What it shows are the spots of rows that are arranged, in the order of rows and
columns, the columns of each row counted from zero. Rows are sorted by means that
are rounded to doubles. That makes no difference unless there are very many boxes
and arrows. -/
theorem arranged_of_place {α : Type} [Arithmetic α] {measure : Measure α} {style : Style α}
    (hids : diagram.ids.Nodup) :
    (NeverRefuses α → Measured measure style diagram →
      ∃ placed, place measure style diagram = .ok placed) ∧
    ∀ placed, place measure style diagram = .ok placed →
      ∃ rows, Arranged diagram (fun above box => Number.rounded (meanColumn diagram above box))
          rows ∧
        (diagram.boxes.length * diagram.arrows.length ^ 2 < 2 ^ 52 →
          Arranged diagram (meanColumn diagram) rows) ∧
        placed.map Placed.shown = (spots rows).map Spot.shown ∧
        (spots rows).Pairwise Spot.Before ∧
        ∀ row, (inRow row (spots rows)).map Spot.column =
          List.range (inRow row (spots rows)).length := by
  constructor
  · intro _ hmeasured
    exact exists_place hmeasured
  · intro placed hplaced
    -- The rows are the witness; where there are few arrows, the rounded means order them as the
    -- exact ones do.
    have harranged := arranged_orderedRows hids
    exact ⟨orderedRows diagram, harranged, arranged_exactly hids, shown_place hplaced,
      sorted_spots harranged.descending, columns_spots harranged.descending⟩

namespace Sample

/-- Two ways from box 1 that would cross if the boxes kept their order. -/
def crossing : Diagram Nat :=
  ⟨[box 1, box 2, box 3, box 4, box 5],
    [arrow 1 2 "1->2", arrow 1 3 "1->3", arrow 3 4 "3->4", arrow 2 5 "2->5"]⟩

/-- The layout of the diagram. -/
def placedCrossing : List (Placed Nat Rat) :=
  [seat 1 80 0 0 0, seat 2 0 90 0 1, seat 3 160 90 1 1, seat 5 0 180 0 2, seat 4 160 180 1 2]

/-- Where the boxes of the crossing are placed. -/
theorem place_crossing : place flat Style.default crossing = .ok placedCrossing := by
  cbv

end Sample

/-- Box 5 comes to stand before box 4, below its predecessor. -/
theorem arranged_of_place_crossing :
    Sample.crossing.ids.Nodup ∧
    place Sample.flat Style.default Sample.crossing = .ok Sample.placedCrossing ∧
    ∃ rows, Arranged Sample.crossing
          (fun above box => Number.rounded (meanColumn Sample.crossing above box)) rows ∧
      Arranged Sample.crossing (meanColumn Sample.crossing) rows ∧
      Sample.placedCrossing.map Placed.shown = (spots rows).map Spot.shown ∧
      (spots rows).Pairwise Spot.Before ∧
      ∀ row, (inRow row (spots rows)).map Spot.column =
        List.range (inRow row (spots rows)).length := by
  have hids : Sample.crossing.ids.Nodup := by decide
  have hsmall : Sample.crossing.boxes.length * Sample.crossing.arrows.length ^ 2 < 2 ^ 52 := by
    decide
  obtain ⟨rows, harranged, hexact, hshown⟩ := (arranged_of_place hids).2 _ Sample.place_crossing
  exact ⟨hids, Sample.place_crossing, rows, harranged, hexact hsmall, hshown⟩

/-! ### Repeated arrows and means that are not told apart -/

/-- The mean of the columns of the predecessors of a box in the row above, each of
them counted once only. -/
def meanColumnOnce (diagram : Diagram ι) (above : Row ι) (box : Box ι) : Rat :=
  meanOf above ((diagram.predecessors box.id).map Subtype.val).dedup

omit [DecidableEq ι] in
/-- Rows of layers 0 and 1 that go downward are two if there is a box in each. -/
theorem eq_pair {rows : List (Row ι)}
    (hdescending : rows.Pairwise fun above row => above.layer < row.layer)
    (hle : ∀ row ∈ rows, row.layer ≤ 1) (hfirst : ∃ row ∈ rows, row.layer = 0)
    (hsecond : ∃ row ∈ rows, row.layer = 1) :
    ∃ above row, rows = [above, row] ∧ above.layer = 0 ∧ row.layer = 1 := by
  -- Layers rise from row to row, so there is no room for a third one.
  match rows with
  | [] => simp at hfirst
  | [row] =>
    simp only [List.mem_singleton, exists_eq_left] at hfirst hsecond
    omega
  | [above, row] =>
    have hlt := List.pairwise_pair.1 hdescending
    have hrow := hle row (by simp)
    exact ⟨above, row, rfl, by omega, by omega⟩
  | above :: row :: next :: rest =>
    have hlt := (List.pairwise_cons.1 hdescending).1 row (by simp)
    have hnext := (List.pairwise_cons.1 (List.pairwise_cons.1 hdescending).2).1 next (by simp)
    have hmost := hle next (by simp)
    omega

namespace Sample

/-- A box below four others. The last of them leads to it three times. -/
def doubled : Diagram Nat :=
  ⟨[box 1, box 2, box 3, box 4, box 5, box 6],
    [arrow 4 5 "4->5", arrow 4 5 "4->5:again", arrow 4 5 "4->5:once more", arrow 1 5 "1->5",
      arrow 3 6 "3->6"]⟩

/-- Many arrows from one box, and one from the next box. -/
def bundle (column count target : Nat) : List (Arrow Nat) :=
  List.replicate count (arrow column target "") ++ [arrow (column + 1) target ""]

/-- Two boxes below a row, whose predecessors are the last two boxes of the row. There
are almost as many arrows to the one as to the other. -/
def close (column count : Nat) : Diagram Nat :=
  ⟨(List.range (column + 4)).map box,
    bundle column count (column + 2) ++ bundle column (count + 1) (column + 3)⟩

/-- The boxes of the sample are numbered from zero on. -/
theorem ids_close (column count : Nat) : (close column count).ids = List.range (column + 4) := by
  rw [Diagram.ids, close, List.map_map]
  exact List.map_id _

/-- No box of the sample is listed twice. -/
theorem nodup_close (column count : Nat) : (close column count).ids.Nodup := by
  rw [ids_close]
  exact List.nodup_range

/-- The arrows of a bundle lead to its target from two boxes side by side. -/
theorem mem_bundle {column count target : Nat} {arrow : Arrow Nat}
    (h : arrow ∈ bundle column count target) :
    (arrow.source = column ∨ arrow.source = column + 1) ∧ arrow.target = target := by
  rcases List.mem_append.1 h with h | h
  · rw [List.eq_of_mem_replicate h]
    exact ⟨.inl rfl, rfl⟩
  · rw [List.mem_singleton.1 h]
    exact ⟨.inr rfl, rfl⟩

/-- The arrows of the sample lead from two boxes to two other ones. -/
theorem mem_arrows_close {column count : Nat} {arrow : Arrow Nat}
    (h : arrow ∈ (close column count).arrows) :
    (arrow.source = column ∨ arrow.source = column + 1) ∧
      (arrow.target = column + 2 ∨ arrow.target = column + 3) := by
  rcases List.mem_append.1 h with h | h
  · exact ⟨(mem_bundle h).1, .inl (mem_bundle h).2⟩
  · exact ⟨(mem_bundle h).1, .inr (mem_bundle h).2⟩

/-- The row is in layer 0, and the two boxes are right below it. -/
theorem layerOf_close (count : Nat) {column id : Nat} (hid : id < column + 4) :
    layerOf (layers (close column count)) id = if id < column + 2 then 0 else 1 := by
  have hmem {id : Nat} (hid : id < column + 4) : id ∈ (close column count).ids := by
    rw [ids_close]
    exact List.mem_range.2 hid
  have hzero {id : Nat} (hid : id < column + 2) :
      layerOf (layers (close column count)) id = 0 := by
    refine (layer_eq_zero_iff (lookup_layers (hmem (by omega)))).2 fun arrow harrow => ?_
    have htarget := (mem_arrows_close harrow.1).2
    omega
  -- The two boxes below are led to from the row above, and by nothing else.
  split
  · rename_i hlt
    exact hzero hlt
  · refine layer_eq_one (lookup_layers (hmem hid)) ?_ fun arrow harrow _ => ?_
    · refine ⟨arrow (column + 1) id "", ⟨?_, hmem (by simp [arrow]), hmem hid⟩, rfl⟩
      obtain rfl | rfl : id = column + 2 ∨ id = column + 3 := by omega
      · simp [close, bundle]
      · simp [close, bundle]
    · have hsource := (mem_arrows_close harrow.1).1
      rw [lookup_layers harrow.2.1, hzero (by omega)]

/-- The boxes of layer 0 are all but the last two. -/
theorem filter_close (column count : Nat) :
    ((close column count).boxes.filter fun box =>
        layerOf (layers (close column count)) box.id = 0) =
      (List.range (column + 2)).map box := by
  have hboxes : (close column count).boxes =
      (List.range (column + 2)).map box ++ [box (column + 2), box (column + 3)] := by
    rw [close, List.range_succ, List.range_succ, List.append_assoc, List.map_append]
    rfl
  -- The boxes of the upper row, and the two below.
  rw [hboxes, List.filter_append, List.filter_eq_self.2, List.filter_eq_nil_iff.2, List.append_nil]
  · intro b hb
    obtain rfl | rfl := List.mem_pair.1 hb
    · simp [box, layerOf_close]
    · simp [box, layerOf_close]
  · intro b hb
    obtain ⟨id, hid, rfl⟩ := List.mem_map.1 hb
    have hlt := List.mem_range.1 hid
    have hlayer := layerOf_close count (show id < column + 4 by omega)
    rw [if_pos hlt] at hlayer
    exact decide_eq_true hlayer

/-- The upper row is made of all boxes but the last two, which are below it. -/
theorem exists_rows_close (column count : Nat) :
    ∃ above row, orderedRows (close column count) = [above, row] ∧
      above.boxes = (List.range (column + 2)).map box ∧
      box (column + 2) ∈ row.boxes ∧ box (column + 3) ∈ row.boxes := by
  have hrow (id : Nat) (hid : id < column + 4) : ∃ row ∈ orderedRows (close column count),
      box id ∈ row.boxes ∧ row.layer = if id < column + 2 then 0 else 1 :=
    mem_entries.1 (mem_entries_orderedRows.2
      ⟨List.mem_map_of_mem (List.mem_range.2 hid), layerOf_close count hid⟩)
  have hle : ∀ row ∈ orderedRows (close column count), row.layer ≤ 1 := by
    intro row hrow
    obtain ⟨b, hb⟩ := List.exists_mem_of_ne_nil _ (perm_of_mem_orderedRows hrow).1
    obtain ⟨hmem, hlayer⟩ := of_mem_orderedRows hrow hb
    obtain ⟨id, hid, rfl⟩ := List.mem_map.1 hmem
    have hlayerOf := (layerOf_close count (List.mem_range.1 hid)).symm.trans hlayer
    split at hlayerOf <;> omega
  -- The layers are 0 and 1 and both hold boxes, so there are two rows.
  obtain ⟨first, hfirst, _, hzero⟩ := hrow 0 (by omega)
  obtain ⟨second, hsecond, hleft, hone⟩ := hrow (column + 2) (by omega)
  obtain ⟨other, hother, hright, hsame⟩ := hrow (column + 3) (by omega)
  rw [if_pos (by omega)] at hzero
  rw [if_neg (by omega)] at hone hsame
  obtain ⟨above, row, hrows, habove, hbelow⟩ := eq_pair (layers_orderedRows _) hle
    ⟨first, hfirst, hzero⟩ ⟨second, hsecond, hone⟩
  have hlower {below : Row Nat} (hmem : below ∈ orderedRows (close column count))
      (hlayer : below.layer = 1) : below = row := by
    rw [hrows] at hmem
    rcases List.mem_pair.1 hmem with rfl | rfl
    · omega
    · rfl
  rw [hlower hsecond hone] at hleft
  rw [hlower hother hsame] at hright
  refine ⟨above, row, hrows, ?_, hleft, hright⟩
  have hhead := head_orderedRows (close column count) above (by rw [hrows]; rfl)
  rw [hhead, habove]
  exact filter_close column count

/-- The column of an id in a row whose boxes are numbered. -/
theorem columnIn_of_boxes {row : Row Nat} {length id : Nat}
    (h : row.boxes = (List.range length).map box) (hid : id < length) : columnIn row id = id := by
  have hfound : (row.boxes.findIdx? fun box => box.id = id) = some id := by
    rw [h, List.findIdx?_map, List.findIdx?_eq_some_iff_getElem]
    refine ⟨by simpa using hid, by simp [box], fun other hother => ?_⟩
    simp [box, hother.ne]
  rw [columnIn, hfound, Option.getD_some]

/-- The mean column of the sources of the arrows in a bundle. -/
theorem meanOf_bundle {row : Row Nat} {length column : Nat}
    (h : row.boxes = (List.range length).map box)
    (hcolumn : column + 1 < length) (count target : Nat) :
    meanOf row ((bundle column count target).map Arrow.source) =
      column + 1 / (count + 1 : Nat) := by
  rw [bundle, List.map_append, List.map_replicate, List.map_singleton, meanOf, if_neg (by simp),
    List.map_append, List.map_replicate, List.map_singleton, List.sum_append, List.sum_replicate,
    List.sum_singleton, List.length_append, List.length_replicate, List.length_singleton]
  simp only [arrow, columnIn_of_boxes h (Nat.lt_of_succ_lt hcolumn), columnIn_of_boxes h hcolumn]
  have hpos : ((count + 1 : Nat) : Rat) ≠ 0 := by exact_mod_cast count.succ_ne_zero
  field_simp
  push_cast
  ring

/-- A bundle leads to one box, from boxes that are there. -/
theorem filter_bundle (column count size target id : Nat) :
    ((bundle column count target).filter fun arrow =>
      arrow.target = id ∧ arrow.source ∈ (close column size).ids) =
      if target = id then bundle column count target else [] := by
  split
  · rename_i heq
    refine List.filter_eq_self.2 fun arrow harrow => ?_
    obtain ⟨hsource, htarget⟩ := mem_bundle harrow
    rw [decide_eq_true_eq, ids_close, List.mem_range]
    exact ⟨htarget.trans heq, by omega⟩
  · rename_i hne
    refine List.filter_eq_nil_iff.2 fun arrow harrow => ?_
    rw [decide_eq_true_eq, (mem_bundle harrow).2]
    exact fun h => hne h.1

/-- The arrows to each of the two boxes are a bundle. -/
theorem predecessors_close (column count : Nat) :
    ((close column count).predecessors (column + 2)).map Subtype.val =
      (bundle column count (column + 2)).map Arrow.source ∧
    ((close column count).predecessors (column + 3)).map Subtype.val =
      (bundle column (count + 1) (column + 3)).map Arrow.source := by
  have harrows : (close column count).arrows =
      bundle column count (column + 2) ++ bundle column (count + 1) (column + 3) := rfl
  have hmem {id : Nat} (hid : id < column + 4) : id ∈ (close column count).ids := by
    rw [ids_close]
    exact List.mem_range.2 hid
  constructor
  · rw [Diagram.map_val_predecessors _ (hmem (by omega)), harrows, List.filter_append,
      filter_bundle, filter_bundle, if_pos rfl, if_neg (by omega), List.append_nil]
  · rw [Diagram.map_val_predecessors _ (hmem (by omega)), harrows, List.filter_append,
      filter_bundle, filter_bundle, if_neg (by omega), if_pos rfl, List.nil_append]

/-- The mean columns of the predecessors of the two boxes. -/
theorem meanColumn_close {column : Nat} (count : Nat) {above : Row Nat}
    (h : above.boxes = (List.range (column + 2)).map box) :
    meanColumn (close column count) above (box (column + 2)) = column + 1 / (count + 1 : Nat) ∧
    meanColumn (close column count) above (box (column + 3)) = column + 1 / (count + 2 : Nat) := by
  obtain ⟨hleft, hright⟩ := predecessors_close column count
  have hlt : column + 1 < column + 2 := Nat.lt_succ_self _
  constructor
  · exact (congrArg (meanOf above) hleft).trans (meanOf_bundle h hlt _ _)
  · exact (congrArg (meanOf above) hright).trans (meanOf_bundle h hlt _ _)

/-- Of two boxes that are sorted by one and the same double, the second one has the lesser
mean. -/
theorem not_arranged_close {column count : Nat}
    (htie : Number.rounded (column + 1 / (count + 1 : Nat)) =
      Number.rounded (column + 1 / (count + 2 : Nat))) :
    ¬Arranged (close column count) (meanColumn (close column count))
      (orderedRows (close column count)) := by
  intro h
  obtain ⟨above, row, hrows, habove, hleft, hright⟩ := exists_rows_close column count
  obtain ⟨hmean, hmean'⟩ := meanColumn_close count habove
  have hsorted := (arranged_orderedRows (nodup_close column count)).sorted
  have hexact := h.sorted
  rw [hrows, List.isChain_pair] at hsorted hexact
  -- Rounded, the two means tie, and the order of the boxes decides. Exactly, the right one is
  -- less.
  refine hsorted.not_of_tie hleft hright ?_ ?_ ?_ hexact
  · intro hsub
    have hids := hsub.map Box.id
    change [column + 3, column + 2].Sublist (close column count).ids at hids
    rw [ids_close] at hids
    have hlt := List.pairwise_pair.1 (List.pairwise_lt_range.sublist hids)
    omega
  · simp only [hmean, hmean', htie]
  · rw [hmean, hmean']
    have hlt : ((count + 1 : Nat) : Rat) < (count + 2 : Nat) := by exact_mod_cast Nat.lt_succ_self _
    have hpos : (0 : Rat) < (count + 1 : Nat) := by exact_mod_cast count.succ_pos
    exact add_lt_add_right (one_div_lt_one_div_of_lt hpos hlt) _

/-- The two means become the same double. -/
theorem rounded_close : Number.rounded (131072 + 1 / (262143 + 1 : Nat)) =
    Number.rounded (131072 + 1 / (262143 + 2 : Nat)) := by
  have hleft : (131072 + 1 / (262143 + 1 : Nat) : Rat) = (34359738369 : Nat) / (262144 : Nat) := by
    norm_num
  have hright : (131072 + 1 / (262143 + 2 : Nat) : Rat) = (34359869441 : Nat) / (262145 : Nat) := by
    norm_num
  rw [hleft, hright, Number.rounded_div _ (by decide), Number.rounded_div _ (by decide)]
  exact congrArg Number.value (by decide +kernel)

/-- The layout of the boxes with a repeated arrow. -/
def placedDoubled : List (Placed Nat Rat) :=
  [seat 1 0 0 0 0, seat 2 160 0 1 0, seat 3 320 0 2 0, seat 4 480 0 3 0, seat 6 160 90 0 1,
    seat 5 320 90 1 1]

/-- Where the boxes are placed if an arrow is doubled. -/
theorem place_doubled : place flat Style.default doubled = .ok placedDoubled := by
  cbv

/-- With each predecessor counted once, the row is not in order. -/
theorem not_arranged_doubled :
    ¬Arranged doubled (meanColumnOnce doubled) (orderedRows doubled) := by
  intro h
  have hrows : orderedRows doubled =
      [⟨0, [box 1, box 2, box 3, box 4]⟩, ⟨1, [box 6, box 5]⟩] := by
    cbv
  have hsorted := h.sorted
  rw [hrows, List.isChain_pair, SortedBy, List.pairwise_pair] at hsorted
  have hleft : meanColumnOnce doubled ⟨0, [box 1, box 2, box 3, box 4]⟩ (box 6) = 2 := by
    decide +kernel
  have hright : meanColumnOnce doubled ⟨0, [box 1, box 2, box 3, box 4]⟩ (box 5) = 3 / 2 := by
    decide +kernel
  rw [hleft, hright] at hsorted
  norm_num at hsorted

end Sample

/-- A layout shows rows that are arranged by some weight only if those of the diagram are. -/
theorem arranged_of_shown {diagram : Diagram ι} {measure : Measure Rat} {style : Style Rat}
    {placed : List (Placed ι Rat)} {weight : Row ι → Box ι → Rat} {rows : List (Row ι)}
    (hplaced : place measure style diagram = .ok placed) (h : Arranged diagram weight rows)
    (hshown : placed.map Placed.shown = (spots rows).map Spot.shown) :
    Arranged diagram weight (orderedRows diagram) := by
  have hrows : rows = orderedRows diagram := eq_of_shown h.descending (layers_orderedRows diagram)
    h.occupied (fun _ hrow => (perm_of_mem_orderedRows hrow).1)
    (hshown.symm.trans (shown_place hplaced))
  rwa [← hrows]

/-- Rows are not arranged by the means of predecessors that are counted once each, and not by
means that are not rounded either. In the first diagram, a box comes to stand behind the
next one for the arrows that are repeated. In the second one, two boxes keep their order,
since the mean columns of their predecessors become the same double. -/
theorem not_arranged_by_exact_means :
    (Sample.doubled.ids.Nodup ∧
      ∃ placed, place Sample.flat Style.default Sample.doubled = .ok placed ∧
      ¬∃ rows, Arranged Sample.doubled (meanColumnOnce Sample.doubled) rows ∧
        placed.map Placed.shown = (spots rows).map Spot.shown) ∧
    (Sample.close 131072 262143).ids.Nodup ∧
      ∃ placed, place Sample.flat Style.default (Sample.close 131072 262143) = .ok placed ∧
      ¬∃ rows, Arranged (Sample.close 131072 262143)
          (meanColumn (Sample.close 131072 262143)) rows ∧
        placed.map Placed.shown = (spots rows).map Spot.shown := by
  -- Two arrows between the same boxes count twice, and two means can be one double.
  constructor
  · refine ⟨by decide, Sample.placedDoubled, Sample.place_doubled, ?_⟩
    rintro ⟨rows, harranged, hshown⟩
    exact Sample.not_arranged_doubled (arranged_of_shown Sample.place_doubled harranged hshown)
  · obtain ⟨placed, hplaced⟩ := exists_place
      (Sample.measured_flat (List.range (131072 + 4)) (Sample.close 131072 262143).arrows)
    refine ⟨Sample.nodup_close 131072 262143, placed, hplaced, ?_⟩
    rintro ⟨rows, harranged, hshown⟩
    exact Sample.not_arranged_close Sample.rounded_close
      (arranged_of_shown hplaced harranged hshown)

end Flowchart.Layout
