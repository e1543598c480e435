import Mathlib.Data.Prod.Lex
import Mathlib.Tactic.Linarith
import Flowchart.Proofs.Layout.Ordering
import Flowchart.Proofs.Layout.Success
import Flowchart.Proofs.Number.Exact

/-!
# `Flowchart.Proofs.Layout.Separation`: boxes keep their distance

In a layout over fractions no two boxes touch. Within a row each box starts a
gap behind the one before it, and each row starts a gap below the tallest box
of the row above. Since a box holds its borders, the gaps are what makes a
point lie in one box at most: the topmost box at a point is the only one.

The invariant is one relation between earlier and later boxes of the list,
which covers both directions. A row adds boxes to the right of it and the next
row adds boxes below it, and the shift at the end moves all boxes alike.

* `Placed.Clears`: how a box lies clear of a later one;
* `clears_placeFrom`, `clears_placeRows`, `clears_place`: the boxes of a row,
  of several rows and of a layout do;
* `hit?_of_clears`: in such a list, a point finds the box that it lies in;
* `separated_place`: boxes of a layout are separated and can be hit.
-/

set_option autoImplicit false

namespace Flowchart.Layout

open Arithmetic

variable {ι : Type} {measure : Measure Rat} {style : Style Rat}

/-! ### Distances -/

namespace Placed

/-- A box lies to the left of another one, with a gap between them that is
exact where their columns are next to each other. -/
structure Beside (style : Style Rat) (b c : Placed ι Rat) : Prop where
  apart : b.x + b.width + style.gapX ≤ c.x
  adjacent : c.column = b.column + 1 → c.x = b.x + b.width + style.gapX

/-- A box lies above another one, with a gap between them. -/
def Above (style : Style Rat) (b c : Placed ι Rat) : Prop :=
  b.y + b.height + style.gapY ≤ c.y

/-- A box lies clear of a later one: to the left of it in the same row, or
above it in another row. -/
inductive Clears (style : Style Rat) (b c : Placed ι Rat) : Prop where
  | beside (row : b.row = c.row) (column : b.column < c.column) (h : b.Beside style c)
  | above (row : b.row < c.row) (h : b.Above style c)

end Placed

/-- A size that is not less than nothing. -/
structure Sized.Nonneg (b : Sized ι Rat) : Prop where
  width : 0 ≤ b.width
  height : 0 ≤ b.height

/-! ### One row -/

/-- A box stands in a row, at a column and a place or further to the right, and
has the size of one of some boxes. -/
structure StandsFrom (row : Nat) (y : Rat) (start : Nat) (left : Rat) (boxes : List (Sized ι Rat))
    (b : Placed ι Rat) : Prop where
  row : b.row = row
  y : b.y = y
  column : start ≤ b.column
  x : left ≤ b.x
  first : b.column = start → b.x = left
  height : ∃ s ∈ boxes, b.height = s.height

variable {placed : List (Placed ι Rat)} {row column : Nat} {x y : Rat}
  {boxes : List (Sized ι Rat)}

/-- Boxes that are placed in a row stand where they were put: in the row, and
not left of the start. -/
theorem standsFrom_placeFrom (h : placeFrom style row y column x boxes = .ok placed)
    (hgap : 0 < style.gapX) (hsizes : ∀ b ∈ boxes, b.Nonneg) :
    ∀ b ∈ placed, StandsFrom row y column x boxes b := by
  induction boxes generalizing column x placed with
  | nil =>
    cases h
    nofun
  | cons s rest ih =>
    simp only [placeFrom, add_exact, ok_bind] at h
    obtain ⟨others, hothers, h⟩ := bind_eq_ok.1 h
    cases h
    obtain ⟨hs, hrest⟩ := List.forall_mem_cons.1 hsizes
    have hwidth := hs.width
    refine List.forall_mem_cons.2 ⟨?_, ?_⟩
    · exact ⟨rfl, rfl, le_rfl, le_rfl, fun _ => rfl, s, List.mem_cons_self, rfl⟩
    · intro b hb
      obtain ⟨hrow, hy, hcolumn, hx, _, t, ht, hheight⟩ := ih hothers hrest b hb
      push_cast at hcolumn
      refine ⟨hrow, hy, by linarith, by linarith, ?_, t, List.mem_cons_of_mem s ht, hheight⟩
      -- Only the box in front stands at the column itself.
      intro heq
      linarith

/-- Boxes placed side by side lie clear of each other. -/
theorem clears_placeFrom (h : placeFrom style row y column x boxes = .ok placed)
    (hgap : 0 < style.gapX) (hsizes : ∀ b ∈ boxes, b.Nonneg) :
    placed.Pairwise (Placed.Clears style) := by
  induction boxes generalizing column x placed with
  | nil =>
    cases h
    exact .nil
  | cons s rest ih =>
    simp only [placeFrom, add_exact, ok_bind] at h
    obtain ⟨others, hothers, h⟩ := bind_eq_ok.1 h
    cases h
    obtain ⟨_, hrest⟩ := List.forall_mem_cons.1 hsizes
    refine List.pairwise_cons.2 ⟨?_, ih hothers hrest⟩
    intro c hc
    -- All boxes behind the first one stand in later columns, and right of it and the gap.
    obtain ⟨hrow, _, hcolumn, hx, hfirst, _⟩ := standsFrom_placeFrom hothers hgap hrest c hc
    push_cast at hcolumn hfirst
    refine .beside hrow.symm (show (column : Rat) < c.column by linarith) ⟨?_, ?_⟩
    · show x + s.width + style.gapX ≤ c.x
      linarith
    · intro hnext
      show c.x = x + s.width + style.gapX
      rw [hfirst hnext, add_assoc]

/-! ### Rows -/

/-- The room that lengths take one behind the other, with a gap between them. -/
def span (gap : Rat) (lengths : List Rat) : Rat :=
  lengths.sum + ((lengths.length : Rat) - 1) * gap

/-- The width of a row is what its boxes span. -/
theorem rowWidth_exact (boxes : List (Sized ι Rat)) :
    rowWidth style boxes = .ok (span style.gapX (boxes.map Sized.width)) := by
  have hgaps : (((boxes.length : Int) - 1 : Int) : Rat) = (boxes.length : Rat) - 1 := by
    push_cast
    rfl
  rw [rowWidth, total_exact, ok_bind, whole_exact, mul_exact, ok_bind, add_exact, span,
    List.length_map, hgaps]

/-- Rows that are placed: the boxes of the first one side by side, from half of
their room to the left of the axis on, and the others from a gap below the
tallest of them on. -/
theorem placeRows_cons_centred {row : Row ι} {rest : List (Row ι)} (hne : row.boxes ≠ [])
    (h : placeRows measure style y (row :: rest) = .ok placed) :
    ∃ boxes inRow tallest below, row.boxes.mapM (sized measure style) = .ok boxes ∧ boxes ≠ [] ∧
      placeFrom style row.layer y 0 (-span style.gapX (boxes.map Sized.width) / 2) boxes =
        .ok inRow ∧
      (boxes.map Sized.height).max? = some tallest ∧
      placeRows measure style (y + (tallest + style.gapY)) rest = .ok below ∧
      placed = inRow ++ below := by
  obtain ⟨boxes, hboxes, h⟩ := bind_eq_ok.1 h
  cases boxes with
  | nil => exact absurd (boxes_of_sized hboxes).symm hne
  | cons first others =>
    -- Nothing fails in exact numbers, so each step of the row has a result.
    obtain ⟨tallest, htallest, h⟩ := bind_eq_ok.1 h
    simp only [rowWidth_exact, neg_exact, ok_bind] at h
    obtain ⟨x, hx, h⟩ := bind_eq_ok.1 h
    rw [div_exact _ (by norm_num), Except.ok.injEq] at hx
    subst hx
    obtain ⟨inRow, hinRow, h⟩ := bind_eq_ok.1 h
    simp only [add_exact, ok_bind] at h
    obtain ⟨below, hbelow, h⟩ := bind_eq_ok.1 h
    cases h
    exact ⟨first :: others, inRow, tallest, below, hboxes, List.cons_ne_nil _ _, hinRow,
      max?_of_largest htallest, hbelow, rfl⟩

/-- Rows that are placed: the boxes of the first one side by side, and the
others from a gap below the tallest of them on. -/
theorem placeRows_cons {row : Row ι} {rest : List (Row ι)} (hne : row.boxes ≠ [])
    (h : placeRows measure style y (row :: rest) = .ok placed) :
    ∃ boxes x inRow tallest below, row.boxes.mapM (sized measure style) = .ok boxes ∧
      boxes ≠ [] ∧ placeFrom style row.layer y 0 x boxes = .ok inRow ∧
      (∀ b ∈ boxes, b.height ≤ tallest) ∧
      placeRows measure style (y + (tallest + style.gapY)) rest = .ok below ∧
      placed = inRow ++ below := by
  obtain ⟨boxes, inRow, tallest, below, hboxes, hneBoxes, hinRow, htallest, hbelow, hplaced⟩ :=
    placeRows_cons_centred hne h
  exact ⟨boxes, _, inRow, tallest, below, hboxes, hneBoxes, hinRow,
    fun b hb => (List.max?_eq_some_iff.1 htallest).2 _ (List.mem_map_of_mem hb), hbelow, hplaced⟩

/-- Rows placed one below the other start at the place given and go on
downward, and their boxes lie clear of each other. -/
theorem clears_placeRows {rows : List (Row ι)} (h : placeRows measure style y rows = .ok placed)
    (hgapX : 0 < style.gapX) (hgapY : 0 < style.gapY)
    (hlayers : rows.Pairwise fun above row => above.layer < row.layer)
    (hne : ∀ row ∈ rows, row.boxes ≠ [])
    (hsizes : ∀ row ∈ rows, ∀ box ∈ row.boxes, ∀ b, sized measure style box = .ok b → b.Nonneg) :
    (∀ b ∈ placed, y ≤ b.y ∧ ∃ row ∈ rows, b.row = row.layer) ∧
      placed.Pairwise (Placed.Clears style) := by
  induction rows generalizing y placed with
  | nil =>
    cases h
    exact ⟨nofun, .nil⟩
  | cons row rest ih =>
    obtain ⟨hlayer, hlayers⟩ := List.pairwise_cons.1 hlayers
    obtain ⟨hrow, hrest⟩ := List.forall_mem_cons.1 hsizes
    obtain ⟨hneRow, hneRest⟩ := List.forall_mem_cons.1 hne
    obtain ⟨boxes, x, inRow, tallest, below, hboxes, hneBoxes, hinRow, htallest, hbelow, rfl⟩ :=
      placeRows_cons hneRow h
    have hnonneg : ∀ b ∈ boxes, b.Nonneg := by
      intro b hb
      obtain ⟨box, hbox, hsized⟩ := exists_of_mem_mapM hboxes b hb
      exact hrow box hbox b hsized
    have htall : 0 ≤ tallest := by
      obtain ⟨b, hb⟩ := List.exists_mem_of_ne_nil boxes hneBoxes
      exact (hnonneg b hb).height.trans (htallest b hb)
    have hstands := standsFrom_placeFrom hinRow hgapX hnonneg
    obtain ⟨hlow, hclears⟩ := ih hbelow hlayers hneRest hrest
    refine ⟨?_, List.pairwise_append.2 ⟨clears_placeFrom hinRow hgapX hnonneg, hclears, ?_⟩⟩
    · intro b hb
      rcases List.mem_append.1 hb with hb | hb
      · exact ⟨(hstands b hb).y.ge, row, List.mem_cons_self, (hstands b hb).row⟩
      · obtain ⟨hy, other, hother, hotherRow⟩ := hlow b hb
        exact ⟨by linarith, other, List.mem_cons_of_mem row hother, hotherRow⟩
    -- A box of this row ends above the gap, and the rows below start behind it.
    · intro b hb c hc
      obtain ⟨hbrow, hby, _, _, _, s, hs, hheight⟩ := hstands b hb
      obtain ⟨hy, other, hother, hcrow⟩ := hlow c hc
      have hle := htallest s hs
      refine .above ?_ (show b.y + b.height + style.gapY ≤ c.y by linarith)
      rw [hbrow, hcrow]
      exact_mod_cast hlayer other hother

/-! ### The layout -/

/-- A box some way further to the left. -/
def Placed.shifted (left : Rat) (b : Placed ι Rat) : Placed ι Rat :=
  { b with x := b.x - left }

/-- All boxes are shifted alike, as far as the leftmost one stands off. -/
theorem shifted_of_shiftToZero {shifted : List (Placed ι Rat)}
    (h : shiftToZero placed = .ok shifted) :
    ∃ left, shifted = placed.map (Placed.shifted left) ∧
      (placed ≠ [] → (placed.map Placed.x).min? = some left) := by
  cases placed with
  | nil =>
    cases h
    exact ⟨0, rfl, absurd rfl⟩
  | cons first rest =>
    obtain ⟨left, hleft, h⟩ := bind_eq_ok.1 h
    have hmap := map_of_mapM (Placed.shifted left) id (fun b b' _ hb => by cases hb; rfl) h
    rw [List.map_id] at hmap
    exact ⟨left, hmap, fun _ => min?_of_smallest hleft⟩

/-- Shifting all boxes alike keeps them clear of each other. -/
theorem clears_shiftToZero {shifted : List (Placed ι Rat)} (h : shiftToZero placed = .ok shifted)
    (hclears : placed.Pairwise (Placed.Clears style)) : shifted.Pairwise (Placed.Clears style) := by
  obtain ⟨left, rfl, _⟩ := shifted_of_shiftToZero h
  rw [List.pairwise_map]
  refine hclears.imp ?_
  intro b c hbc
  cases hbc with
  | beside hrow hcolumn hbeside =>
    obtain ⟨hapart, hadjacent⟩ := hbeside
    refine .beside hrow hcolumn ⟨?_, ?_⟩
    · show b.x - left + b.width + style.gapX ≤ c.x - left
      linarith
    · intro hnext
      show c.x - left = b.x - left + b.width + style.gapX
      have hx := hadjacent hnext
      linarith
  -- The shift is sideways, so that nothing changes between rows.
  | above hrow habove => exact .above hrow habove

section

variable [DecidableEq ι] {diagram : Diagram ι}

/-- The boxes of a layout lie clear of each other. -/
theorem clears_place (h : place measure style diagram = .ok placed) (hgapX : 0 < style.gapX)
    (hgapY : 0 < style.gapY)
    (hsizes : ∀ box ∈ diagram.boxes, ∀ b, sized measure style box = .ok b → b.Nonneg) :
    placed.Pairwise (Placed.Clears style) := by
  obtain ⟨unshifted, hunshifted, h⟩ := bind_eq_ok.1 h
  refine clears_shiftToZero h (clears_placeRows hunshifted hgapX hgapY (layers_orderedRows diagram)
    (fun row hrow => (perm_of_mem_orderedRows hrow).1) ?_).2
  intro row hrow box hbox
  exact hsizes box (of_mem_orderedRows hrow hbox).1

end

/-! ### Points -/

namespace Placed

/-- A box holds the points between its ends, the borders included. -/
theorem contains_exact (b : Placed ι Rat) (x y : Rat) : b.contains x y =
    .ok (decide ((b.x ≤ x ∧ x ≤ b.x + b.width) ∧ b.y ≤ y ∧ y ≤ b.y + b.height)) := by
  have hbetween : ∀ low high value : Rat,
      between low (.ok high) value = .ok (decide (low ≤ value ∧ value ≤ high)) := by
    intro low high value
    by_cases h : low ≤ value
    · simp [between, ok_bind, h]
    · simp [between, ok_bind, h]
      rfl
  rw [contains, right, bottom, add_exact, add_exact, hbetween, hbetween, ok_bind]
  by_cases h : b.x ≤ x ∧ x ≤ b.x + b.width
  · simp [h]
  · simp [h]
    rfl

/-- A point of a box is none of a box that it lies clear of. -/
theorem Clears.not_contains {b c : Placed ι Rat} (h : b.Clears style c) (hgapX : 0 < style.gapX)
    (hgapY : 0 < style.gapY) {x y : Rat} (hb : b.contains x y = .ok true) :
    c.contains x y = .ok false := by
  rw [contains_exact, Except.ok.injEq, decide_eq_true_eq] at hb
  rw [contains_exact, Except.ok.injEq, decide_eq_false_iff_not]
  obtain ⟨⟨_, hright⟩, _, hbottom⟩ := hb
  rintro ⟨⟨hleft, _⟩, htop, _⟩
  cases h with
  | beside _ _ hbeside =>
    have := hbeside.apart
    linarith
  | above _ habove =>
    unfold Above at habove
    linarith

end Placed

/-- What contains a point is found behind what does not. -/
theorem firstContaining_append {later : List (Placed ι Rat)} {b : Placed ι Rat} {x y : Rat}
    (hlater : ∀ c ∈ later, c.contains x y = .ok false) (hb : b.contains x y = .ok true)
    (earlier : List (Placed ι Rat)) :
    firstContaining x y (later ++ b :: earlier) = .ok (some b) := by
  induction later with
  | nil =>
    rw [List.nil_append, firstContaining, hb]
    rfl
  | cons c later ih =>
    obtain ⟨hc, hlater⟩ := List.forall_mem_cons.1 hlater
    rw [List.cons_append, firstContaining, hc]
    exact ih hlater

/-- Where boxes lie clear of each other, a point in one of them finds it. -/
theorem hit?_of_clears (h : placed.Pairwise (Placed.Clears style)) (hgapX : 0 < style.gapX)
    (hgapY : 0 < style.gapY) {b : Placed ι Rat} (hb : b ∈ placed)
    (hcontains : b.contains x y = .ok true) : hit? placed x y = .ok (some b) := by
  obtain ⟨earlier, later, rfl⟩ := List.append_of_mem hb
  have hclears := (List.pairwise_cons.1 (List.pairwise_append.1 h).2.1).1
  rw [hit?, List.reverse_append, List.reverse_cons, List.append_assoc]
  refine firstContaining_append ?_ hcontains _
  intro c hc
  exact (hclears c (List.mem_reverse.1 hc)).not_contains hgapX hgapY hcontains

/-! ### Boxes of a layout -/

namespace Placed

/-- Where a box stands, in the order of rows and columns. -/
def standing (b : Placed ι Rat) : Rat ×ₗ Rat :=
  toLex (b.row, b.column)

/-- A box that clears another one stands before it, row by row and then column
by column. -/
theorem Clears.standing_lt {b c : Placed ι Rat} (h : b.Clears style c) :
    b.standing < c.standing := by
  refine Prod.Lex.toLex_lt_toLex.2 ?_
  cases h with
  | beside hrow hcolumn _ => exact .inr ⟨hrow, hcolumn⟩
  | above hrow _ => exact .inl hrow

end Placed

/-- A box lies clear of those that stand behind it. -/
theorem clears_of_standing_lt (h : placed.Pairwise (Placed.Clears style)) {b c : Placed ι Rat}
    (hb : b ∈ placed) (hc : c ∈ placed) (hlt : b.standing < c.standing) : b.Clears style c := by
  have hne : b ≠ c := by
    rintro rfl
    exact lt_irrefl _ hlt
  have : Std.Symm fun b c : Placed ι Rat => b.Clears style c ∨ c.Clears style b :=
    ⟨fun _ _ => Or.symm⟩
  have hor : placed.Pairwise fun b c => b.Clears style c ∨ c.Clears style b := h.imp .inl
  rcases hor.forall hb hc hne with hbc | hcb
  · exact hbc
  · exact absurd hcb.standing_lt hlt.not_gt

/-- Of two boxes in one row, the one in the lesser column stands beside the
other. -/
theorem beside_of_clears (h : placed.Pairwise (Placed.Clears style)) {b c : Placed ι Rat}
    (hb : b ∈ placed) (hc : c ∈ placed) (hrow : b.row = c.row) (hcolumn : b.column < c.column) :
    b.Beside style c := by
  have hlt : b.standing < c.standing := Prod.Lex.toLex_lt_toLex.2 (.inr ⟨hrow, hcolumn⟩)
  cases clears_of_standing_lt h hb hc hlt with
  | beside _ _ hbeside => exact hbeside
  | above hlt _ => exact absurd hrow hlt.ne

/-- Of two boxes in two rows, the one in the lesser row stands above the other.
-/
theorem above_of_clears (h : placed.Pairwise (Placed.Clears style)) {b c : Placed ι Rat}
    (hb : b ∈ placed) (hc : c ∈ placed) (hrow : b.row < c.row) : b.Above style c := by
  have hlt : b.standing < c.standing := Prod.Lex.toLex_lt_toLex.2 (.inl hrow)
  cases clears_of_standing_lt h hb hc hlt with
  | beside heq _ _ => exact absurd heq hrow.ne
  | above _ habove => exact habove

/-- Boxes that clear each other are different. -/
theorem nodup_of_clears (h : placed.Pairwise (Placed.Clears style)) : placed.Nodup := by
  refine h.imp ?_
  rintro b c hbc rfl
  exact lt_irrefl _ hbc.standing_lt

/-- Boxes of a layout keep their distance. Where the gaps are more than nothing
and no box has a size below nothing, there is a layout without repetitions. In
a row of it, each box starts a gap behind those to the left of it, exactly so
behind the one next to it, and each row starts a gap below all boxes of the
rows above. So a point in a box, its borders included, finds that very box. -/
theorem separated_place [DecidableEq ι] {diagram : Diagram ι}
    (hmeasured : Measured measure style diagram) (hgapX : 0 < style.gapX) (hgapY : 0 < style.gapY)
    (hsizes : ∀ box ∈ diagram.boxes, ∀ b, sized measure style box = .ok b → b.Nonneg) :
    ∃ placed, place measure style diagram = .ok placed ∧ placed.Nodup ∧
      (∀ b ∈ placed, ∀ c ∈ placed, b.row = c.row → b.column < c.column → b.Beside style c) ∧
      (∀ b ∈ placed, ∀ c ∈ placed, b.row < c.row → b.Above style c) ∧
      ∀ b ∈ placed, ∀ x y, b.contains x y = .ok true → hit? placed x y = .ok (some b) := by
  obtain ⟨placed, hplaced⟩ := exists_place hmeasured
  have hclears := clears_place hplaced hgapX hgapY hsizes
  refine ⟨placed, hplaced, nodup_of_clears hclears, ?_, ?_, ?_⟩
  · intro b hb c hc
    exact beside_of_clears hclears hb hc
  · intro b hb c hc
    exact above_of_clears hclears hb hc
  · intro b hb x y
    exact hit?_of_clears hclears hgapX hgapY hb

namespace Sample

/-- The boxes of the sample are of one size. -/
theorem sized_flat (id : Nat) : sized flat Style.default (box id) = .ok ⟨box id, 100, 34⟩ := by
  cbv

/-- Two boxes side by side below a third. -/
def fan : Diagram Nat :=
  ⟨[1, 2, 3].map box, [arrow 1 2 "1->2", arrow 1 3 "1->3"]⟩

/-- The layout of the diagram. -/
def placedFan : List (Placed Nat Rat) :=
  [seat 1 80 0 0 0, seat 2 0 90 0 1, seat 3 160 90 1 1]

/-- One box is placed above two others, over the middle between them. -/
theorem place_fan : place flat Style.default fan = .ok placedFan := by
  cbv

/-- No box of the fan has a negative length. -/
theorem nonneg_fan : ∀ box ∈ fan.boxes, ∀ b, sized flat Style.default box = .ok b → b.Nonneg := by
  intro box hbox b hb
  obtain ⟨id, _, rfl⟩ := List.mem_map.1 hbox
  rw [sized_flat] at hb
  cases hb
  exact ⟨(by decide : (0 : Rat) ≤ 100), (by decide : (0 : Rat) ≤ 34)⟩

end Sample

/-- A corner of box 2 lies on no other box. -/
theorem separated_place_fan :
    place Sample.flat Style.default Sample.fan = .ok Sample.placedFan ∧
    (∀ b ∈ Sample.placedFan, ∀ c ∈ Sample.placedFan, b.row < c.row → b.Above Style.default c) ∧
    hit? Sample.placedFan 100 124 = .ok (some (Sample.seat 2 0 90 0 1)) := by
  obtain ⟨placed, hplaced, _, _, habove, hhit⟩ :=
    separated_place
      (Sample.measured_flat [1, 2, 3] [Sample.arrow 1 2 "1->2", Sample.arrow 1 3 "1->3"])
      (by decide) (by decide) Sample.nonneg_fan
  have hsame := Sample.place_fan.symm.trans hplaced
  cases hsame
  exact ⟨Sample.place_fan, habove, hhit _ (by simp [Sample.placedFan]) 100 124 (by cbv)⟩

end Flowchart.Layout
