import Mathlib.Algebra.Order.Field.Basic
import Mathlib.Algebra.Order.Ring.Rat
import Mathlib.Data.List.Sigma
import Flowchart.Proofs.Layout.Rows
import Flowchart.Proofs.Number.Nearest

/-!
# `Flowchart.Proofs.Layout.Ordering`: the order within rows and among them

The rows of a diagram go downward, each layer that has boxes once. The first
row keeps the order in which its boxes were made. Every other row is sorted by
the mean position of predecessors in the row above, as that row stands in the
end: a row is sorted before the row below it looks at it. The sort is stable,
so boxes of one mean keep their order.

Means are rounded to doubles before they are compared. Two means that differ can
be the same double, and then the boxes keep their order too. That takes so many
boxes and arrows that the means of a graph of usual size are told apart.

* `SortedBy`: sorted by a weight, equal weights in a given order;
* `sortedBy_mergeSort`: a merge sort does that;
* `meanPosition`, `value_barycenter`: the exact mean, and what it is rounded to;
* `meanPosition_eq_of_rounded`: when means are told apart;
* `layers_orderedRows`, `perm_orderedRows`: the layers of the rows, and their
  boxes;
* `head_orderedRows`, `sorted_orderedRows`: the order in the first row, and in
  a row below another one.
-/

set_option autoImplicit false

namespace Flowchart.Layout

/-! ### Sorting by weight -/

/-- Items sorted by weight, and those of one weight in the order of a list. -/
def SortedBy {β : Type} (weight : β → Rat) (order items : List β) : Prop :=
  items.Pairwise fun a b => weight a < weight b ∨ weight a = weight b ∧ [a, b].Sublist order

/-- What is sorted against a list is sorted against a longer one. -/
theorem SortedBy.mono {β : Type} {weight : β → Rat} {order order' items : List β}
    (h : SortedBy weight order items) (horder : order.Sublist order') :
    SortedBy weight order' items :=
  h.imp fun hab => hab.imp_right fun ⟨heq, hsub⟩ => ⟨heq, hsub.trans horder⟩

/-- Items that are sorted by one weight are not sorted by another one that parts two
items of the same weight the other way around. -/
theorem SortedBy.not_of_tie {β : Type} {weight weight' : β → Rat} {order items : List β} {a b : β}
    (h : SortedBy weight order items) (ha : a ∈ items) (hb : b ∈ items)
    (horder : ¬[b, a].Sublist order) (htie : weight a = weight b) (hlt : weight' b < weight' a) :
    ¬SortedBy weight' order items := by
  intro h'
  obtain ⟨i, hi, rfl⟩ := List.getElem_of_mem ha
  obtain ⟨j, hj, rfl⟩ := List.getElem_of_mem hb
  -- The items stand one way around or the other, and each way contradicts one of the two orders.
  rcases lt_trichotomy i j with hij | rfl | hji
  · rcases List.pairwise_iff_getElem.1 h' i j hi hj hij with hab | ⟨hab, _⟩
    · exact lt_asymm hab hlt
    · exact hlt.ne' hab
  · exact lt_irrefl _ hlt
  · rcases List.pairwise_iff_getElem.1 h j i hj hi hji with hba | ⟨_, hba⟩
    · exact hba.ne' htie
    · exact horder hba

/-- A merge sort by weight keeps the order of items of one weight. -/
theorem sortedBy_mergeSort {β : Type} (weight : β → Rat) (items : List β) :
    SortedBy weight items (items.mergeSort fun a b => decide (weight a ≤ weight b)) := by
  have htrans : ∀ a b c : β, decide (weight a ≤ weight b) → decide (weight b ≤ weight c) →
      decide (weight a ≤ weight c) := by
    simp only [decide_eq_true_eq]
    exact fun a b c => le_trans
  have htotal : ∀ a b : β, decide (weight a ≤ weight b) || decide (weight b ≤ weight a) := by
    simpa using fun a b => le_total (weight a) (weight b)
  -- The sort is one of items with their indices, which tell equal items apart.
  rw [SortedBy, ← List.mergeSort_zipIdx, List.pairwise_map]
  have hsorted := List.pairwise_mergeSort (List.zipIdxLE_trans htrans)
    (List.zipIdxLE_total htotal) items.zipIdx
  have hindices := (List.mergeSort_perm items.zipIdx
    (List.zipIdxLE fun a b => decide (weight a ≤ weight b)))
  have hne := List.pairwise_map.1 ((hindices.map Prod.snd).nodup_iff.2
    (List.nodup_zipIdx_map_snd items))
  refine (hsorted.and hne).imp_of_mem ?_
  rintro ⟨a, i⟩ ⟨b, j⟩ ha hb ⟨hle, hij⟩
  rw [hindices.mem_iff, List.mk_mem_zipIdx_iff_getElem?, List.getElem?_eq_some_iff] at ha hb
  obtain ⟨hi, rfl⟩ := ha
  obtain ⟨hj, rfl⟩ := hb
  simp only [List.zipIdxLE, decide_eq_true_eq] at hle
  split at hle
  · rename_i hab
    split at hle
    · rename_i hba
      have hlt : i < j := lt_of_le_of_ne (by simpa using hle) hij
      have hsub := List.pairwise_iff_getElem.1
        (List.pairwise_iff_forall_sublist.2 fun h : [_, _].Sublist items => h) i j hi hj hlt
      exact .inr ⟨le_antisymm hab hba, hsub⟩
    · rename_i hba
      exact .inl (lt_of_not_ge hba)
  · cases hle

/-! ### Means -/

variable {ι : Type} [DecidableEq ι]

/-- The exact mean of the positions of some ids in a row. An id elsewhere counts as
position 0, and so does the lack of any. -/
def meanPosition (above : List (Box ι)) (ids : List ι) : Rat :=
  (ids.map fun id => (((position? above id).getD 0 : Nat) : Rat)).sum / ids.length

/-- The mean is a quotient of whole numbers. Where there are no ids, it is one by 1. -/
theorem meanPosition_eq (above : List (Box ι)) (ids : List ι) :
    meanPosition above ids = (positionSum above ids : Nat) / (max 1 ids.length : Nat) := by
  have hsum : (ids.map fun id => (((position? above id).getD 0 : Nat) : Rat)).sum =
      (positionSum above ids : Nat) := by
    induction ids with
    | nil => simp [positionSum]
    | cons id ids ih => rw [positionSum, Nat.cast_add, ← ih, List.map_cons, List.sum_cons]
  rw [meanPosition, hsum]
  cases ids with
  | nil => simp [positionSum]
  | cons id ids => rw [max_eq_right (Nat.succ_pos _)]

/-- Means are not negative. -/
theorem meanPosition_nonneg (above : List (Box ι)) (ids : List ι) : 0 ≤ meanPosition above ids := by
  rw [meanPosition_eq]
  positivity

/-- The mean by which a row is sorted is the exact one, rounded to a double. -/
theorem value_barycenter (above : List (Box ι)) (ids : List ι) :
    Number.value (barycenter above ids) = Number.rounded (meanPosition above ids) := by
  rw [meanPosition_eq, Number.rounded_div _ (Nat.le_max_left 1 _), barycenter]
  cases ids with
  | nil =>
    rw [positionSum, Number.nearestBits_zero]
    rfl
  | cons id ids =>
    rw [if_neg (by simp), max_eq_right (Nat.succ_pos _)]

/-- A position in a row is less than the number of its boxes. -/
theorem getD_position?_le (row : List (Box ι)) (id : ι) :
    (position? row id).getD 0 ≤ row.length := by
  cases hposition : position? row id with
  | none => exact Nat.zero_le _
  | some position =>
    obtain ⟨entry, hentry, rfl⟩ := Option.map_eq_some_iff.1 hposition
    have hmem := (List.mem_filter.1 (List.mem_of_getLast? hentry)).1
    have hlt := List.snd_lt_of_mem_zipIdx hmem
    exact (Nat.lt_of_lt_of_eq hlt (Nat.add_zero _)).le

/-- Positions add up to no more than there is room for. -/
theorem positionSum_le (row : List (Box ι)) (ids : List ι) :
    positionSum row ids ≤ row.length * ids.length := by
  induction ids with
  | nil => exact Nat.zero_le _
  | cons id ids ih =>
    rw [positionSum, List.length_cons, Nat.mul_succ, Nat.add_comm]
    exact Nat.add_le_add ih (getD_position?_le row id)

section

variable {above : List (Box ι)} {ids ids' : List ι} {arrows : Nat}

/-- The greater of two means stays greater if there are not too many boxes and
arrows. -/
theorem rounded_meanPosition_lt (hids : ids.length ≤ arrows) (hids' : ids'.length ≤ arrows)
    (hsmall : above.length * arrows ^ 2 < 2 ^ 52)
    (h : meanPosition above ids < meanPosition above ids') :
    Number.rounded (meanPosition above ids) < Number.rounded (meanPosition above ids') := by
  have hcount : 0 < max 1 ids.length := Nat.le_max_left 1 _
  have hcount' : 0 < max 1 ids'.length := Nat.le_max_left 1 _
  rw [meanPosition_eq, meanPosition_eq, ← not_le, Number.quotient_le_iff hcount' hcount,
    not_le] at h
  have hsum := positionSum_le above ids'
  -- The greater mean is not zero, so there are boxes and arrows at all.
  have hpos : 0 < above.length * ids'.length :=
    (Nat.pos_of_mul_pos_right (Nat.zero_lt_of_lt h)).trans_le hsum
  have habove : 0 < above.length := Nat.pos_of_mul_pos_right hpos
  have harrows : 1 ≤ arrows := (Nat.pos_of_mul_pos_left hpos).trans_le hids'
  have hle : max 1 ids.length ≤ arrows := Nat.max_le.2 ⟨harrows, hids⟩
  have hle' : max 1 ids'.length ≤ arrows := Nat.max_le.2 ⟨harrows, hids'⟩
  rw [meanPosition_eq, meanPosition_eq, Number.rounded_div _ hcount, Number.rounded_div _ hcount']
  refine Number.value_strictMono (Number.nearestBits_lt hcount hcount' h ?_ ?_)
  · refine lt_of_le_of_lt ?_ hsmall
    calc positionSum above ids' * max 1 ids.length
        ≤ above.length * arrows * arrows :=
          Nat.mul_le_mul (hsum.trans (Nat.mul_le_mul_left _ hids')) hle
      _ = above.length * arrows ^ 2 := by rw [Nat.mul_assoc, Nat.pow_two]
  · refine lt_of_le_of_lt ?_ hsmall
    calc max 1 ids.length * max 1 ids'.length ≤ arrows * arrows := Nat.mul_le_mul hle hle'
      _ = arrows ^ 2 := (Nat.pow_two arrows).symm
      _ ≤ above.length * arrows ^ 2 := Nat.le_mul_of_pos_left _ habove

/-- Means that become the same double are the same if there are not too many boxes
and arrows. -/
theorem meanPosition_eq_of_rounded (hids : ids.length ≤ arrows) (hids' : ids'.length ≤ arrows)
    (hsmall : above.length * arrows ^ 2 < 2 ^ 52)
    (h : Number.rounded (meanPosition above ids) = Number.rounded (meanPosition above ids')) :
    meanPosition above ids = meanPosition above ids' := by
  rcases lt_trichotomy (meanPosition above ids) (meanPosition above ids') with hlt | heq | hgt
  · exact absurd h (rounded_meanPosition_lt hids hids' hsmall hlt).ne
  · exact heq
  · exact absurd h (rounded_meanPosition_lt hids' hids hsmall hgt).ne'

end

/-- What a box weighs below a row: the mean position of its predecessors, rounded
to a double. -/
def weight (predecessors : ι → List ι) (above : List (Box ι)) (box : Box ι) : Rat :=
  Number.rounded (meanPosition above (predecessors box.id))

/-- A row is sorted by what its boxes weigh. -/
theorem sortRow_eq (predecessors : ι → List ι) (above boxes : List (Box ι)) :
    sortRow predecessors above boxes = boxes.mergeSort fun a b =>
      decide (weight predecessors above a ≤ weight predecessors above b) := by
  have hboxes : (boxes.map fun box => (barycenter above (predecessors box.id), box)).map Prod.snd =
      boxes := by
    rw [List.map_map]
    exact List.map_id boxes
  rw [sortRow]
  conv_rhs => rw [← hboxes]
  refine List.map_mergeSort fun a ha b hb => ?_
  obtain ⟨a, _, rfl⟩ := List.mem_map.1 ha
  obtain ⟨b, _, rfl⟩ := List.mem_map.1 hb
  simp only [weight, ← value_barycenter, Number.value_strictMono.le_iff_le]

/-- A row that is sorted has the same boxes. -/
theorem sortRow_perm (predecessors : ι → List ι) (above boxes : List (Box ι)) :
    (sortRow predecessors above boxes).Perm boxes := by
  rw [sortRow_eq]
  exact List.mergeSort_perm _ _

/-! ### Rows -/

/-- Before it is sorted, a row has the boxes of its layer in order. -/
theorem boxes_of_mem_rows {boxes : List (Box ι)} {layers : Layers ι} {row : Row ι}
    (h : row ∈ rows boxes layers) : row.boxes ≠ [] ∧
      row.boxes = boxes.filter fun box => layerOf layers box.id = row.layer := by
  obtain ⟨layer, _, hrow⟩ := List.mem_filterMap.1 h
  obtain ⟨rfl, hne, hboxes⟩ := row?_eq_some hrow
  refine ⟨hne, ?_⟩
  rw [hboxes, List.filter_map, List.map_map]
  exact List.map_id _

/-- The rows come in the order of their layers. -/
theorem layers_rows (boxes : List (Box ι)) (layers : Layers ι) :
    ((rows boxes layers).map Row.layer).Pairwise (· < ·) := by
  refine List.pairwise_map.2 (List.Pairwise.filterMap _ ?_ List.pairwise_lt_range)
  intro m n hlt above habove row hrow
  rwa [(row?_eq_some habove).1, (row?_eq_some hrow).1]

variable {predecessors : ι → List ι} {rows : List (Row ι)}

/-- Rows that are sorted below another one have the same layers. -/
theorem layers_sortBelow (above : List (Box ι)) :
    (sortBelow predecessors above rows).map Row.layer = rows.map Row.layer := by
  induction rows generalizing above with
  | nil => rfl
  | cons row rows ih => rw [sortBelow, List.map_cons, List.map_cons, ih]

/-- Rows that are sorted have the same layers. -/
theorem layers_sortRows : (sortRows predecessors rows).map Row.layer = rows.map Row.layer := by
  cases rows with
  | nil => rfl
  | cons first rest => rw [sortRows, List.map_cons, List.map_cons, layers_sortBelow]

/-- A row that is sorted was a row with the same boxes. -/
theorem exists_of_mem_sortBelow {above : List (Box ι)} {row : Row ι}
    (h : row ∈ sortBelow predecessors above rows) :
    ∃ origin ∈ rows, origin.layer = row.layer ∧ row.boxes.Perm origin.boxes := by
  induction rows generalizing above with
  | nil => cases h
  | cons first rows ih =>
    rcases List.mem_cons.1 h with rfl | h
    · exact ⟨first, List.mem_cons_self, rfl, sortRow_perm _ _ _⟩
    · obtain ⟨origin, horigin, hsame⟩ := ih h
      exact ⟨origin, List.mem_cons_of_mem first horigin, hsame⟩

/-- A row that was sorted has the boxes of a row of the same layer. -/
theorem exists_of_mem_sortRows {row : Row ι} (h : row ∈ sortRows predecessors rows) :
    ∃ origin ∈ rows, origin.layer = row.layer ∧ row.boxes.Perm origin.boxes := by
  cases rows with
  | nil => cases h
  | cons first rest =>
    rcases List.mem_cons.1 h with rfl | h
    · exact ⟨row, List.mem_cons_self, rfl, .refl _⟩
    · obtain ⟨origin, horigin, hsame⟩ := exists_of_mem_sortBelow h
      exact ⟨origin, List.mem_cons_of_mem first horigin, hsame⟩

/-- Each row is sorted by what its boxes weigh below the row above it. -/
theorem sorted_sortBelow {order : List (Box ι)} (above : Row ι)
    (h : ∀ row ∈ rows, row.boxes.Sublist order) :
    (above :: sortBelow predecessors above.boxes rows).IsChain fun above row =>
      SortedBy (weight predecessors above.boxes) order row.boxes := by
  induction rows generalizing above with
  | nil => exact .singleton _
  | cons row rows ih =>
    obtain ⟨hrow, hrows⟩ := List.forall_mem_cons.1 h
    refine List.isChain_cons_cons.2 ⟨?_, ih _ hrows⟩
    rw [sortRow_eq]
    exact (sortedBy_mergeSort _ _).mono hrow

/-- In sorted rows, each row is in order for the row above it. -/
theorem sorted_sortRows {order : List (Box ι)} (h : ∀ row ∈ rows, row.boxes.Sublist order) :
    (sortRows predecessors rows).IsChain fun above row =>
      SortedBy (weight predecessors above.boxes) order row.boxes := by
  cases rows with
  | nil => exact .nil
  | cons first rest => exact sorted_sortBelow first (List.forall_mem_cons.1 h).2

/-! ### The rows of a diagram -/

section

variable (diagram : Diagram ι)

/-- The layers of the rows go downward. -/
theorem layers_orderedRows :
    (orderedRows diagram).Pairwise fun above row => above.layer < row.layer := by
  refine List.pairwise_map.1 ?_
  rw [orderedRows, layers_sortRows]
  exact layers_rows _ _

/-- The first row has the boxes of its layer in order. -/
theorem head_orderedRows : ∀ row ∈ (orderedRows diagram).head?,
    row.boxes = diagram.boxes.filter fun box => layerOf (layers diagram) box.id = row.layer := by
  intro row hrow
  have hmem : row ∈ Layout.rows diagram.boxes (layers diagram) := by
    unfold orderedRows at hrow
    change row ∈ (sortRows _ (Layout.rows diagram.boxes (layers diagram))).head? at hrow
    cases hrows : Layout.rows diagram.boxes (layers diagram) with
    | nil => simp [hrows, sortRows] at hrow
    | cons first rest =>
      obtain rfl : first = row := by simpa [hrows, sortRows] using hrow
      exact List.mem_cons_self
  exact (boxes_of_mem_rows hmem).2

/-- Below another row, a row is sorted by what its boxes weigh. -/
theorem sorted_orderedRows :
    (orderedRows diagram).IsChain fun above row =>
      SortedBy (weight (fun id => (diagram.predecessors id).map Subtype.val) above.boxes)
        diagram.boxes row.boxes := by
  refine sorted_sortRows ?_
  intro row hrow
  rw [(boxes_of_mem_rows hrow).2]
  exact List.filter_sublist

end

variable {diagram : Diagram ι}

/-- A row has some boxes, and they are those of its layer. -/
theorem perm_of_mem_orderedRows {row : Row ι} (h : row ∈ orderedRows diagram) :
    row.boxes ≠ [] ∧
      row.boxes.Perm
        (diagram.boxes.filter fun box => layerOf (layers diagram) box.id = row.layer) := by
  obtain ⟨origin, horigin, hlayer, hperm⟩ := exists_of_mem_sortRows h
  obtain ⟨hne, hboxes⟩ := boxes_of_mem_rows horigin
  refine ⟨fun hnil => hne (hnil ▸ hperm).nil_eq.symm, ?_⟩
  rw [hboxes, hlayer] at hperm
  exact hperm

/-- Where no box is there twice, the rows hold each box once. -/
theorem perm_orderedRows (h : diagram.boxes.Nodup) :
    ((orderedRows diagram).flatMap Row.boxes).Perm diagram.boxes := by
  have hnodup : ((orderedRows diagram).flatMap Row.boxes).Nodup := by
    refine List.nodup_flatMap.2 ⟨?_, ?_⟩
    · intro row hrow
      exact (perm_of_mem_orderedRows hrow).2.nodup_iff.2 (h.filter _)
    -- Rows of two layers share no box.
    · refine (layers_orderedRows diagram).imp_of_mem ?_
      intro above row habove hrow hlt box hbox hbox'
      rw [← (of_mem_orderedRows habove hbox).2, ← (of_mem_orderedRows hrow hbox').2] at hlt
      exact lt_irrefl _ hlt
  refine (List.perm_ext_iff_of_nodup hnodup h).2 ?_
  intro box
  rw [List.mem_flatMap]
  constructor
  · rintro ⟨row, hrow, hbox⟩
    exact (of_mem_orderedRows hrow hbox).1
  · intro hbox
    obtain ⟨row, hrow, hbox, _⟩ := mem_entries.1 (mem_entries_orderedRows.2 ⟨hbox, rfl⟩)
    exact ⟨row, hrow, hbox⟩

end Flowchart.Layout
