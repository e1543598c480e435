import Flowchart.Layout.Json
import Flowchart.Proofs.Json.Lengths
import Flowchart.Proofs.Layout.Ordering

/-!
# `Flowchart.Proofs.Layout.Numbers`: layouts in a style from the settings

A style from the settings holds any values. A layout adds and compares them, mixes
them with the widths of texts, which are doubles, and halves what comes out. All of
that works if fonts are texts and lengths are numbers, as long as whole numbers
stay in the range of doubles; how far they grow is bounded by the number of boxes.
A value that says nothing also does for a font.

Each length is used for each box. So in a layout of boxes that have texts no other
values will do.

* `Style.Usable`: the styles in which so many boxes have a layout;
* `Placed.InRange`: what the numbers of a placed box are;
* `place_inRange`, `bounds_succeeds`, `backEdges_succeeds`: layouts in usable
  styles;
* `isNumber_of_place`: all lengths of a style in which there is a layout are
  numbers.
-/

set_option autoImplicit false

namespace Flowchart

open Arithmetic Json
open Number (doubleRange)

namespace Metrics

/-- A value names a font: a text, or nothing. -/
def IsFont (value : Json) : Prop :=
  value.isTruthy = false ∨ ∃ name, value = .string name

/-- A font of the right kind has a size. -/
theorem fontSizeOf_succeeds {font : Json} (h : IsFont font) : Succeeds (fontSizeOf font) := by
  unfold fontSizeOf
  rcases h with hfalse | ⟨name, rfl⟩
  · rw [hfalse]
    exact ⟨_, rfl⟩
  · split <;> exact ⟨_, rfl⟩

/-- The width of some cells is a double. -/
theorem cellsWidth_double {count : Nat} {font : Json} (h : IsFont font) :
    Yields (cellsWidth count font) IsDouble := by
  obtain ⟨size, hsize⟩ := fontSizeOf_succeeds h
  rw [cellsWidth, hsize, ok_bind]
  exact .ok ⟨_, rfl, trivial⟩

/-- A text has a width. -/
theorem widthOf_double (text : Text) {font : Json} (h : IsFont font) :
    Yields (widthOf (.string text) font) IsDouble := by
  unfold widthOf
  split
  · have hcells : Succeeds ((text.map fun c => Json.string [c]).mapM cellsOf) := by
      refine .mapM fun value hvalue => ?_
      obtain ⟨c, _, rfl⟩ := List.mem_map.1 hvalue
      exact ⟨_, rfl⟩
    obtain ⟨cells, hcells⟩ := hcells
    rw [items, ok_bind, hcells, ok_bind]
    exact cellsWidth_double h
  · exact .ok ⟨_, rfl, trivial⟩

/-- The width of a text is a double if it has one. -/
theorem isDouble_of_widthOf {value font width : Json} (h : widthOf value font = .ok width) :
    width.IsDouble := by
  unfold widthOf at h
  split at h
  · obtain ⟨items, _, h⟩ := bind_eq_ok.1 h
    obtain ⟨cells, _, h⟩ := bind_eq_ok.1 h
    obtain ⟨size, _, h⟩ := bind_eq_ok.1 h
    cases h
    exact ⟨_, rfl, trivial⟩
  · cases h
    exact ⟨_, rfl, trivial⟩

end Metrics

namespace Style

/-- All lengths of a style are of a kind. -/
structure Lengths (P : Json → Prop) (style : Style Json) : Prop where
  paddingX : P style.paddingX
  paddingY : P style.paddingY
  minWidth : P style.minWidth
  maxWidth : P style.maxWidth
  gapX : P style.gapX
  gapY : P style.gapY
  lineHeight : P style.lineHeight
  labelLineHeight : P style.labelLineHeight

/-- A style can be used for so many boxes: its fonts are texts, its lengths are
numbers, and where these are whole, as many of them as are added up stay in the
range of doubles. -/
structure Usable (count : Nat) (style : Style Json) : Prop where
  font : Metrics.IsFont style.font
  smallFont : Metrics.IsFont style.smallFont
  lengths : ∃ bound, style.Lengths (Within bound) ∧
    (bound + 1) * (2 * count + 5) < doubleRange

/-- The style that the settings start from can be used for more boxes than there
will be. -/
theorem usable_default {count : Nat} (h : count < 2 ^ 64) :
    (Style.default : Style Json).Usable count where
  font := .inr ⟨_, rfl⟩
  smallFont := .inr ⟨_, rfl⟩
  lengths := by
    refine ⟨280, ?_, ?_⟩
    · constructor <;> exact within_whole (by decide)
    · have hrange : Number.twoPow 80 ≤ doubleRange := Number.twoPow_le (by decide)
      have hpower : Number.twoPow 80 = 2 ^ 80 := rfl
      omega

end Style

namespace Layout

variable {ι : Type} {style : Style Json} {bound count : Nat}

/-- A box has texts as blocks have them: a label, and one line below it. -/
structure Textual (box : Box ι) : Prop where
  label : ∃ text, box.label = .string text
  lines : ∃ line, box.lines = [.string line]

/-- A box has a size in range. -/
structure Sized.InRange (bound : Nat) (b : Sized ι Json) : Prop where
  width : b.width.Within bound
  height : b.height.Within (4 * bound + 4)

/-- A box has a place and a size in range. -/
structure Placed.InRange (bound : Nat) (b : Placed ι Json) : Prop where
  x : b.x.IsDouble
  y : b.y.IsDouble
  width : b.width.Within bound
  height : b.height.Within (4 * bound + 4)
  row : b.row.IsNumber

/-- What is added up in a layout stays in the range of doubles. -/
structure FitsRange (bound count : Nat) : Prop where
  below : 5 * bound + 4 < doubleRange
  across : count * bound + count * bound < doubleRange
  count : count < doubleRange

/-- A bound and a count of boxes fit if their product does, with some room to
spare. -/
theorem fitsRange (h : (bound + 1) * (2 * count + 5) < doubleRange) : FitsRange bound count := by
  have hproduct : (bound + 1) * (2 * count + 5) =
      count * bound + count * bound + 5 * bound + 2 * count + 5 := by
    ring
  constructor <;> omega

section

variable (hlengths : style.Lengths (Within bound)) (hrange : FitsRange bound count)

include hlengths hrange

/-- A box of texts has a width, within the bound. -/
theorem boxWidth_within (hfont : Metrics.IsFont style.font)
    (hsmall : Metrics.IsFont style.smallFont) {box : Box ι} (hbox : Textual box) :
    Yields (boxWidth Metrics.widthOf style box) (Within bound) := by
  have hbelow := hrange.below
  obtain ⟨text, htext⟩ := hbox.label
  obtain ⟨line, hline⟩ := hbox.lines
  rw [boxWidth, htext, hline]
  refine (Metrics.widthOf_double text hfont).bind fun label hlabel => ?_
  have hlines : ∀ value ∈ [Json.string line],
      Yields (Metrics.widthOf value style.smallFont) IsDouble := by
    intro value hvalue
    cases List.mem_singleton.1 hvalue
    exact Metrics.widthOf_double line hsmall
  refine (Yields.mapM hlines).bind fun lines hlines => ?_
  refine (largest_yields (fun _ h => h.isNumber) hlabel hlines.2).bind fun widest hwidest => ?_
  have htwo : Within 2 (whole 2) := within_whole (by decide)
  refine (mul_within hlengths.paddingX htwo (by omega) (by omega)).bind fun padding hpadding => ?_
  refine (add_double hwidest hpadding (by omega)).bind fun padded hpadded => ?_
  -- What is measured is a double, so it is the limits that set a bound.
  refine (larger_yields (fun _ h => h.isNumber) hlengths.minWidth (hpadded.within bound)).bind ?_
  intro wide hwide
  exact smaller_yields (fun _ h => h.isNumber) hlengths.maxWidth hwide

/-- A box of texts has a height, within what its lines make of the bound. -/
theorem boxHeight_within {box : Box ι} (hbox : Textual box) :
    Yields (boxHeight style box) (Within (4 * bound + 4)) := by
  have hbelow := hrange.below
  obtain ⟨line, hline⟩ := hbox.lines
  have hone : Within 1 (whole 1) := within_whole (by decide)
  have htwo : Within 2 (whole 2) := within_whole (by decide)
  have hfour : Within 4 (whole 4) := within_whole (by decide)
  have hlines : Yields (linesHeight style box) (Within (1 * bound + 4)) := by
    rw [linesHeight, hline]
    refine (mul_within hone hlengths.lineHeight (by omega) (by omega)).bind fun lines hlines => ?_
    exact add_within hlines hfour (by omega) (by omega)
  -- The bound grows with each sum, and in the end is four times the one for a single length.
  refine hlines.bind fun lines hlines => ?_
  refine (mul_within hlengths.paddingY htwo (by omega) (by omega)).bind fun padding hpadding => ?_
  refine (add_within hpadding hlengths.labelLineHeight (by omega) (by omega)).bind ?_
  intro label hlabel
  refine (add_within hlabel hlines (by omega) (by omega)).mono fun height hheight => ?_
  exact hheight.mono (by omega)

/-- A box of texts has a size in range. -/
theorem sized_inRange (hfont : Metrics.IsFont style.font)
    (hsmall : Metrics.IsFont style.smallFont) {box : Box ι} (hbox : Textual box) :
    Yields (sized Metrics.widthOf style box) (Sized.InRange bound) := by
  refine (boxWidth_within hlengths hrange hfont hsmall hbox).bind fun width hwidth => ?_
  refine (boxHeight_within hlengths hrange hbox).bind fun height hheight => ?_
  exact .ok ⟨hwidth, hheight⟩

/-- A row of boxes in range has a width in range. -/
theorem rowWidth_within {boxes : List (Sized ι Json)} (hne : boxes ≠ [])
    (hcount : boxes.length ≤ count) (hboxes : ∀ b ∈ boxes, b.InRange bound) :
    Yields (rowWidth style boxes) (Within (count * bound + count * bound)) := by
  have hbelow := hrange.below
  have hacross := hrange.across
  have hle : boxes.length * bound ≤ count * bound := Nat.mul_le_mul_right bound hcount
  have hwidths : ∀ width ∈ boxes.map Sized.width, width.Within bound := by
    intro width hwidth
    obtain ⟨b, hb, rfl⟩ := List.mem_map.1 hwidth
    exact (hboxes b hb).width
  have htotal : Yields (total (boxes.map Sized.width)) (Within (boxes.length * bound)) := by
    have hsum := total_within hwidths
    rw [List.length_map] at hsum
    exact hsum (by omega)
  -- The widths come to the first half of the bound, the gaps between them to the second.
  refine htotal.bind fun widths hwidths => ?_
  have hpos : 0 < boxes.length := List.length_pos_iff.2 hne
  have hgaps : Within count (whole ((boxes.length : Int) - 1)) := within_whole (by omega)
  refine (mul_within hgaps hlengths.gapX hrange.count (by omega)).bind fun gaps hgaps => ?_
  refine (add_within hwidths hgaps (by omega) (by omega)).mono fun width hwidth => ?_
  exact hwidth.mono (by omega)

/-- Boxes in range are placed in a row without leaving the range. -/
theorem placeFrom_inRange {row column : Nat} {x y : Json} {boxes : List (Sized ι Json)}
    (hx : x.IsDouble) (hy : y.IsDouble) (hboxes : ∀ b ∈ boxes, b.InRange bound) :
    Yields (placeFrom style row y column x boxes) fun placed => ∀ b ∈ placed, b.InRange bound := by
  have hbelow := hrange.below
  induction boxes generalizing column x with
  | nil => exact .ok nofun
  | cons b rest ih =>
    obtain ⟨hb, hrest⟩ := List.forall_mem_cons.1 hboxes
    refine (add_within hb.width hlengths.gapX (by omega) (by omega)).bind fun advance hadvance => ?_
    refine (add_double hx hadvance (by omega)).bind fun next hnext => ?_
    refine (ih hnext hrest).bind fun placed hplaced => .ok ?_
    exact List.forall_mem_cons.2 ⟨⟨hx, hy, hb.width, hb.height, ⟨_, rfl⟩⟩, hplaced⟩

/-- Rows of boxes of texts are placed without leaving the range. -/
theorem placeRows_inRange (hfont : Metrics.IsFont style.font)
    (hsmall : Metrics.IsFont style.smallFont) {rows : List (Row ι)} {y : Json} (hy : y.IsDouble)
    (hrows : ∀ row ∈ rows, row.boxes.length ≤ count ∧ ∀ box ∈ row.boxes, Textual box) :
    Yields (placeRows Metrics.widthOf style y rows) fun placed =>
      ∀ b ∈ placed, b.InRange bound := by
  have hbelow := hrange.below
  induction rows generalizing y with
  | nil => exact .ok nofun
  | cons row rest ih =>
    obtain ⟨⟨hcount, htextual⟩, hrest⟩ := List.forall_mem_cons.1 hrows
    have hboxes := Yields.mapM fun box hbox =>
      sized_inRange hlengths hrange hfont hsmall (htextual box hbox)
    refine hboxes.bind fun boxes hboxes => ?_
    obtain ⟨hlength, hboxes⟩ := hboxes
    cases boxes with
    -- A row without boxes takes no room.
    | nil => exact ih hy hrest
    | cons first others =>
      obtain ⟨hfirst, hothers⟩ := List.forall_mem_cons.1 hboxes
      have hheights : ∀ height ∈ others.map Sized.height, height.Within (4 * bound + 4) := by
        intro height hheight
        obtain ⟨b, hb, rfl⟩ := List.mem_map.1 hheight
        exact (hothers b hb).height
      refine (largest_yields (fun _ h => h.isNumber) hfirst.height hheights).bind ?_
      intro tallest htallest
      have hne : first :: others ≠ [] := List.cons_ne_nil _ _
      refine (rowWidth_within hlengths hrange hne (hlength.trans_le hcount) hboxes).bind ?_
      intro width hwidth
      refine (neg_within hwidth).bind fun opposite hopposite => ?_
      refine (halve_double hopposite hrange.across).bind fun x hx => ?_
      refine (placeFrom_inRange hlengths hrange hx hy hboxes).bind fun placed hplaced => ?_
      refine (add_within htallest hlengths.gapY (by omega) (by omega)).bind fun drop hdrop => ?_
      refine (add_double hy hdrop (by omega)).bind fun next hnext => ?_
      refine (ih hnext hrest).bind fun below hbelow => .ok ?_
      exact List.forall_mem_append.2 ⟨hplaced, hbelow⟩

end

/-- Boxes in range are shifted without leaving the range. -/
theorem shiftToZero_inRange {placed : List (Placed ι Json)} (h : ∀ b ∈ placed, b.InRange bound) :
    Yields (shiftToZero placed) fun shifted => ∀ b ∈ shifted, b.InRange bound := by
  cases placed with
  | nil => exact .ok nofun
  | cons first rest =>
    obtain ⟨hfirst, hrest⟩ := List.forall_mem_cons.1 h
    have hplaces : ∀ x ∈ rest.map Placed.x, x.IsDouble := by
      intro x hx
      obtain ⟨b, hb, rfl⟩ := List.mem_map.1 hx
      exact (hrest b hb).x
    -- Only the places are shifted; all else of a box stays in range.
    refine (smallest_yields (fun _ h => h.isNumber) hfirst.x hplaces).bind fun left hleft => ?_
    refine (Yields.mapM fun b hb => ?_).mono fun _ hshifted => hshifted.2
    refine (sub_double (h b hb).x (hleft.within 0) (Number.twoPow_pos 1023)).bind ?_
    intro x hx
    refine .ok ?_
    exact { h b hb with x := hx }

/-- Boxes in range have bounds. -/
theorem bounds_succeeds {placed : List (Placed ι Json)} (hrange : FitsRange bound count)
    (h : ∀ b ∈ placed, b.InRange bound) : Succeeds (bounds placed) := by
  have hbelow := hrange.below
  have hzero : IsNumber (decimal 0 0) := (isDouble_decimal 0 0).isNumber
  refine (Yields.foldlM (Q := fun extent => extent.1.IsNumber ∧ extent.2.IsNumber)
    ⟨hzero, hzero⟩ ?_).succeeds
  rintro ⟨width, height⟩ ⟨hwidth, hheight⟩ b hb
  obtain ⟨hx, hy, hb_width, hb_height, _⟩ := h b hb
  refine (add_double hx hb_width (by omega)).bind fun right hright => ?_
  refine (larger_yields (fun _ h => h) hwidth hright.isNumber).bind fun width hwidth => ?_
  refine (add_double hy hb_height (by omega)).bind fun bottom hbottom => ?_
  refine (larger_yields (fun _ h => h) hheight hbottom.isNumber).bind fun height hheight => ?_
  exact .ok ⟨hwidth, hheight⟩

/-- Whether an arrow goes back can be told in rows that are numbers. -/
theorem backEdges_succeeds [DecidableEq ι] {placed : List (Placed ι Json)}
    (h : ∀ b ∈ placed, b.InRange bound) (arrows : List (Arrow ι)) :
    Succeeds (backEdges arrows placed) := by
  have hrow : ∀ id row, rowOf? placed id = some row → row.IsNumber := by
    intro id row hrow
    obtain ⟨b, hb, rfl⟩ := Option.map_eq_some_iff.1 hrow
    exact (h b (List.mem_reverse.1 (List.mem_of_find?_eq_some hb))).row
  have hback : ∀ arrow, Succeeds (isBackEdge placed arrow) := by
    intro arrow
    unfold isBackEdge
    split
    · rename_i source target hsource htarget
      exact holds_succeeds .lessOrEqual (hrow _ _ htarget) (hrow _ _ hsource)
    · exact ⟨false, rfl⟩
  -- A filter with a failing test succeeds if each test does.
  choose goesBack hgoesBack using hback
  rw [backEdges, filterM_eq_ok hgoesBack, ok_bind]
  exact ⟨_, rfl⟩

/-- Boxes with texts have a layout in a usable style. -/
theorem place_inRange [DecidableEq ι] {diagram : Diagram ι}
    (hfont : Metrics.IsFont style.font) (hsmall : Metrics.IsFont style.smallFont)
    (hlengths : style.Lengths (Within bound)) (hrange : FitsRange bound diagram.boxes.length)
    (hboxes : ∀ box ∈ diagram.boxes, Textual box) :
    Yields (place Metrics.widthOf style diagram) fun placed => ∀ b ∈ placed, b.InRange bound := by
  have hrows : ∀ row ∈ orderedRows diagram,
      row.boxes.length ≤ diagram.boxes.length ∧ ∀ box ∈ row.boxes, Textual box := by
    intro row hrow
    refine ⟨?_, fun box hbox => hboxes box (of_mem_orderedRows hrow hbox).1⟩
    rw [(perm_of_mem_orderedRows hrow).2.length_eq]
    exact List.length_filter_le _ _
  refine (placeRows_inRange hlengths hrange hfont hsmall (isDouble_decimal 0 0) hrows).bind ?_
  intro placed hplaced
  exact shiftToZero_inRange hplaced

/-! ### Lengths that are no numbers -/

/-- What is measured is a number, so all that goes into a width has to be one. -/
theorem isNumber_of_boxWidth {box : Box ι} {width : Json}
    (h : boxWidth Metrics.widthOf style box = .ok width) :
    style.paddingX.IsNumber ∧ style.minWidth.IsNumber ∧ style.maxWidth.IsNumber ∧
      width.IsNumber := by
  obtain ⟨label, hlabel, h⟩ := bind_eq_ok.1 h
  obtain ⟨lines, hlines, h⟩ := bind_eq_ok.1 h
  obtain ⟨widest, hwidest, h⟩ := bind_eq_ok.1 h
  obtain ⟨padding, hpadding, h⟩ := bind_eq_ok.1 h
  obtain ⟨padded, hpadded, h⟩ := bind_eq_ok.1 h
  obtain ⟨wide, hwide, h⟩ := bind_eq_ok.1 h
  -- The width of a text is a double, and from there on each operation has a number in it.
  have hmeasured : ∀ line ∈ lines, line.IsDouble := by
    intro line hline
    obtain ⟨value, _, hvalue⟩ := exists_of_mem_mapM hlines line hline
    exact Metrics.isDouble_of_widthOf hvalue
  have hdouble : widest.IsDouble :=
    (largest_yields (fun _ h => h.isNumber) (Metrics.isDouble_of_widthOf hlabel)
      hmeasured).of_eq hwidest
  obtain ⟨hpaddingNumber, hpaddedNumber⟩ := isNumber_of_add hpadded
  obtain ⟨hpaddingX, _⟩ := isNumber_of_mul hpadding (hpaddingNumber.1 hdouble.isNumber)
  obtain ⟨hminWidth, hwideNumber⟩ := isNumber_of_larger hwide (hpaddedNumber.1 hdouble.isNumber)
  obtain ⟨hmaxWidth, hwidth⟩ := isNumber_of_smaller h hwideNumber
  exact ⟨hpaddingX, hminWidth, hmaxWidth, hwidth⟩

/-- A box with lines has a height only if the lengths that it is computed from
are numbers. -/
theorem isNumber_of_boxHeight {box : Box ι} {height : Json} (hlines : box.lines ≠ [])
    (h : boxHeight style box = .ok height) :
    style.paddingY.IsNumber ∧ style.lineHeight.IsNumber ∧ style.labelLineHeight.IsNumber ∧
      height.IsNumber := by
  obtain ⟨lines, hlinesHeight, h⟩ := bind_eq_ok.1 h
  obtain ⟨padding, hpadding, h⟩ := bind_eq_ok.1 h
  obtain ⟨label, hlabel, h⟩ := bind_eq_ok.1 h
  rw [linesHeight, if_neg (by simpa using hlines)] at hlinesHeight
  obtain ⟨product, hproduct, hsum⟩ := bind_eq_ok.1 hlinesHeight
  -- Four is added to the lines, so they are numbers, and all else is added to them.
  obtain ⟨hfour, hlinesNumber⟩ := isNumber_of_add hsum
  have hproductNumber : product.IsNumber := hfour.2 ⟨_, rfl⟩
  obtain ⟨_, hlineHeight⟩ := isNumber_of_mul hproduct hproductNumber
  obtain ⟨hlabelNumber, hheight⟩ := isNumber_of_add h
  have hlabel' : label.IsNumber := hlabelNumber.2 (hlinesNumber.1 hproductNumber)
  obtain ⟨hpaddingNumber, hsumNumber⟩ := isNumber_of_add hlabel
  have hpadding' : padding.IsNumber := hsumNumber.2 hlabel'
  obtain ⟨hpaddingY, _⟩ := isNumber_of_mul hpadding hpadding'
  exact ⟨hpaddingY, hlineHeight, hpaddingNumber.1 hpadding', hheight.1 hlabel'⟩

/-- A row of boxes with texts is only placed in a style with numbers for
lengths. -/
theorem isNumber_of_placeRows {row : Row ι} {rest : List (Row ι)} {y : Json}
    {placed : List (Placed ι Json)}
    (h : placeRows Metrics.widthOf style y (row :: rest) = .ok placed) (hne : row.boxes ≠ [])
    (hlines : ∀ box ∈ row.boxes, box.lines ≠ []) : style.Lengths IsNumber := by
  obtain ⟨boxes, hboxes, h⟩ := bind_eq_ok.1 h
  have hsized : ∀ b ∈ boxes, ∃ box ∈ row.boxes, sized Metrics.widthOf style box = .ok b :=
    exists_of_mem_mapM hboxes
  cases boxes with
  | nil => exact absurd (boxes_of_sized hboxes).symm hne
  | cons first others =>
    have hsizes : ∀ b ∈ first :: others, (style.paddingX.IsNumber ∧ style.minWidth.IsNumber ∧
        style.maxWidth.IsNumber ∧ b.width.IsNumber) ∧ style.paddingY.IsNumber ∧
        style.lineHeight.IsNumber ∧ style.labelLineHeight.IsNumber ∧ b.height.IsNumber := by
      intro b hb
      obtain ⟨box, hbox, hsized⟩ := hsized b hb
      obtain ⟨width, hwidth, hsized⟩ := bind_eq_ok.1 hsized
      obtain ⟨height, hheight, hsized⟩ := bind_eq_ok.1 hsized
      cases hsized
      exact ⟨isNumber_of_boxWidth hwidth, isNumber_of_boxHeight (hlines box hbox) hheight⟩
    obtain ⟨⟨hpaddingX, hminWidth, hmaxWidth, hwidth⟩, hpaddingY, hlineHeight, hlabelLineHeight,
      hheight⟩ := hsizes first List.mem_cons_self
    obtain ⟨tallest, htallest, h⟩ := bind_eq_ok.1 h
    obtain ⟨_, _, h⟩ := bind_eq_ok.1 h
    obtain ⟨_, _, h⟩ := bind_eq_ok.1 h
    obtain ⟨_, _, h⟩ := bind_eq_ok.1 h
    obtain ⟨_, hplaced, h⟩ := bind_eq_ok.1 h
    obtain ⟨advance, hadvance, _⟩ := bind_eq_ok.1 hplaced
    obtain ⟨drop, hdrop, _⟩ := bind_eq_ok.1 h
    -- The first box has a width and the row a height, and the gaps are added to these.
    have hgapX := (isNumber_of_add hadvance).1.1 hwidth
    have htall : tallest.IsNumber := by
      refine (largest_yields (fun _ h => h) hheight ?_).of_eq htallest
      intro height hheight
      obtain ⟨b, hb, rfl⟩ := List.mem_map.1 hheight
      exact (hsizes b (List.mem_cons_of_mem first hb)).2.2.2.2
    have hgapY := (isNumber_of_add hdrop).1.1 htall
    exact ⟨hpaddingX, hpaddingY, hminWidth, hmaxWidth, hgapX, hgapY, hlineHeight,
      hlabelLineHeight⟩

/-- Only in a style with numbers for lengths is there a layout of boxes with
texts. -/
theorem isNumber_of_place [DecidableEq ι] {diagram : Diagram ι} {placed : List (Placed ι Json)}
    (h : place Metrics.widthOf style diagram = .ok placed) (hne : diagram.boxes ≠ [])
    (hlines : ∀ box ∈ diagram.boxes, box.lines ≠ []) : style.Lengths IsNumber := by
  obtain ⟨unshifted, hunshifted, _⟩ := bind_eq_ok.1 h
  obtain ⟨box, hbox⟩ := List.exists_mem_of_ne_nil diagram.boxes hne
  obtain ⟨row, hrow, _⟩ := mem_entries.1 (mem_entries_orderedRows.2 ⟨hbox, rfl⟩)
  obtain ⟨first, rest, hrows⟩ := List.exists_cons_of_ne_nil (List.ne_nil_of_mem hrow)
  have hfirst : first ∈ orderedRows diagram := hrows ▸ List.mem_cons_self
  rw [hrows] at hunshifted
  exact isNumber_of_placeRows hunshifted (perm_of_mem_orderedRows hfirst).1
    fun box hbox => hlines box (of_mem_orderedRows hfirst hbox).1

end Layout

end Flowchart
