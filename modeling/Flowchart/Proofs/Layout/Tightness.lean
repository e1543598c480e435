import Mathlib.Data.Finset.Lattice.Fold
import Mathlib.Order.Interval.Finset.Nat
import Mathlib.Tactic.FinCases
import Flowchart.Proofs.Diagram.Cycles
import Flowchart.Proofs.Layout.Success

/-!
# `Flowchart.Proofs.Layout.Tightness`: no layer is left out

On a cycle a box may lie above one of its predecessors. Still, cycles or not, a
box lies in layer 0 if nothing leads to it and nowhere else, and a box below
layer 1 lies right below a predecessor. The layers that hold boxes are
therefore one row of numbers, and as a box holds one of them only, there are
no more of them than there are ids.

* `layer_eq_zero_iff`, `exists_joins_of_layer`: the layer of a box, by what
  leads to it;
* `exists_occupied`: no layer is left out above that of a box;
* `exists_occupied_iff`: the layers that hold boxes are one row of numbers;
* `layers_tight`: what the layers of any diagram are.
-/

set_option autoImplicit false

namespace Flowchart.Layout

open Diagram

variable {ι : Type} [DecidableEq ι] {diagram : Diagram ι}

/-- Whether some box of a diagram lies in a layer. -/
def Occupied (diagram : Diagram ι) (row : Nat) : Prop :=
  ∃ id ∈ diagram.ids, (layers diagram).lookup id = some row

/-- A row is occupied if it is the layer of a box. -/
theorem occupied_iff {row : Nat} :
    Occupied diagram row ↔ ∃ id ∈ diagram.ids, layerOf (layers diagram) id = row := by
  refine exists_congr fun id => and_congr_right fun hid => ?_
  rw [lookup_layers hid, Option.some_inj]

/-- A box lies in layer 0 if nothing leads to it, and nowhere else. -/
theorem layer_eq_zero_iff {id : ι} {layer : Nat}
    (h : (layers diagram).lookup id = some layer) :
    layer = 0 ↔ ∀ arrow, diagram.Joins arrow → arrow.target ≠ id := by
  rw [(tight_assign (predecessorsOf diagram) id layer h).first]
  constructor
  · rintro hnone arrow harrow rfl
    exact hnone arrow.source (precedes_iff.2 ⟨arrow, harrow, rfl, rfl⟩)
  · intro hnone m hprec
    obtain ⟨arrow, harrow, _, htarget⟩ := precedes_iff.1 hprec
    exact hnone arrow harrow htarget

/-- A box below layer 1 lies right below a box that an arrow joins to it. -/
theorem exists_joins_of_layer {id : ι} {layer : Nat} (h : (layers diagram).lookup id = some layer)
    (hlayer : 2 ≤ layer) : ∃ arrow, diagram.Joins arrow ∧ arrow.target = id ∧
      (layers diagram).lookup arrow.source = some (layer - 1) := by
  obtain ⟨m, hprec, hm⟩ := (tight_assign (predecessorsOf diagram) id layer h).below hlayer
  obtain ⟨arrow, harrow, rfl, htarget⟩ := precedes_iff.1 hprec
  exact ⟨arrow, harrow, htarget, hm⟩

/-- A box that only boxes of layer 0 lead to lies right below them. -/
theorem layer_eq_one {id : ι} {layer : Nat} (h : (layers diagram).lookup id = some layer)
    (hbelow : ∃ arrow, diagram.Joins arrow ∧ arrow.target = id)
    (hfirst : ∀ arrow, diagram.Joins arrow → arrow.target = id →
      (layers diagram).lookup arrow.source = some 0) : layer = 1 := by
  have hpos : layer ≠ 0 := by
    intro hzero
    obtain ⟨arrow, harrow, htarget⟩ := hbelow
    exact (layer_eq_zero_iff h).1 hzero arrow harrow htarget
  by_contra hne
  obtain ⟨arrow, harrow, htarget, hlayer⟩ := exists_joins_of_layer h (by omega)
  have habove := Option.some.inj (hlayer.symm.trans (hfirst arrow harrow htarget))
  omega

/-- Above a layer that holds a box, each layer from 1 on holds one. -/
theorem exists_occupied {row layer : Nat} (h : Occupied diagram layer) (hrow : 1 ≤ row)
    (hle : row ≤ layer) : Occupied diagram row := by
  induction layer with
  | zero => omega
  | succ layer ih =>
    rcases Nat.lt_or_ge layer row with hlt | hge
    · obtain rfl : row = layer + 1 := by omega
      exact h
    -- The row is further up, and so is a box that leads here.
    · obtain ⟨id, _, hid⟩ := h
      obtain ⟨arrow, harrow, _, habove⟩ := exists_joins_of_layer hid (by omega)
      exact ih ⟨arrow.source, harrow.2.1, habove⟩ hge

/-- There are no more layers than ids: each layer from 1 on takes one of its
own. -/
theorem layer_le_card {layer : Nat} (h : Occupied diagram layer) :
    layer ≤ diagram.ids.toFinset.card := by
  have hsubset : Finset.Icc 1 layer ⊆ diagram.ids.toFinset.image (layerOf (layers diagram)) := by
    intro row hrow
    obtain ⟨hone, hle⟩ := Finset.mem_Icc.1 hrow
    obtain ⟨id, hid, hlayer⟩ := occupied_iff.1 (exists_occupied h hone hle)
    exact Finset.mem_image.2 ⟨id, List.mem_toFinset.2 hid, hlayer⟩
  calc layer = (Finset.Icc 1 layer).card := by simp
    _ ≤ (diagram.ids.toFinset.image (layerOf (layers diagram))).card := Finset.card_le_card hsubset
    _ ≤ diagram.ids.toFinset.card := Finset.card_image_le

/-- The layers that hold boxes are one row of numbers that starts at 0 or 1. -/
theorem exists_occupied_iff (diagram : Diagram ι) :
    ∃ first ≤ 1, ∃ rows, ∀ row, Occupied diagram row ↔ first ≤ row ∧ row < rows := by
  have hlt : ∀ row, Occupied diagram row →
      row < diagram.ids.toFinset.sup fun id => layerOf (layers diagram) id + 1 := by
    intro row hoccupied
    obtain ⟨id, hid, rfl⟩ := occupied_iff.1 hoccupied
    exact Finset.lt_sup_iff.2 ⟨id, List.mem_toFinset.2 hid, Nat.lt_succ_self _⟩
  -- Row 0 may be empty, where every box has a predecessor. Any later row is occupied.
  have hfill : ∀ row, 1 ≤ row →
      (row < diagram.ids.toFinset.sup fun id => layerOf (layers diagram) id + 1) →
        Occupied diagram row := by
    intro row hone hrow
    obtain ⟨id, hid, hle⟩ := Finset.lt_sup_iff.1 hrow
    have hid := List.mem_toFinset.1 hid
    exact exists_occupied ⟨id, hid, lookup_layers hid⟩ hone (Nat.le_of_lt_succ hle)
  by_cases hzero : Occupied diagram 0
  · refine ⟨0, Nat.zero_le 1, _, fun row => ⟨fun h => ⟨Nat.zero_le row, hlt row h⟩, ?_⟩⟩
    rintro ⟨_, hrow⟩
    rcases Nat.eq_zero_or_pos row with rfl | hpos
    · exact hzero
    · exact hfill row hpos hrow
  · refine ⟨1, Nat.le_refl 1, _, fun row => ⟨fun h => ⟨?_, hlt row h⟩, fun h =>
      hfill row h.1 h.2⟩⟩
    rcases Nat.eq_zero_or_pos row with rfl | hpos
    · exact absurd h hzero
    · exact hpos

/-- Each box of a diagram, with cycles or without, has a layer: 0 exactly if
nothing leads to it, and from 2 on always right below a box that leads to it.
So the layers that hold boxes are one row of numbers, which starts at 0 or 1,
and there are no more of them than ids. -/
theorem layers_tight (diagram : Diagram ι) :
    (∀ id ∈ diagram.ids, ∃ layer, (layers diagram).lookup id = some layer ∧
      (layer = 0 ↔ ∀ arrow, diagram.Joins arrow → arrow.target ≠ id) ∧
      (2 ≤ layer → ∃ arrow, diagram.Joins arrow ∧ arrow.target = id ∧
        (layers diagram).lookup arrow.source = some (layer - 1)) ∧
      layer ≤ diagram.ids.toFinset.card) ∧
    ∃ first ≤ 1, ∃ rows, ∀ row, Occupied diagram row ↔ first ≤ row ∧ row < rows := by
  refine ⟨fun id hid => ?_, exists_occupied_iff diagram⟩
  have hlookup := lookup_layers hid
  exact ⟨_, hlookup, layer_eq_zero_iff hlookup, exists_joins_of_layer hlookup,
    layer_le_card ⟨id, hid, hlookup⟩⟩

namespace Sample

/-- Two boxes that lead to each other, and a third one behind them. -/
def whirl : Diagram Nat :=
  ⟨[box 1, box 2, box 3], [arrow 1 2 "1->2", arrow 2 1 "2->1", arrow 2 3 "2->3"]⟩

end Sample

/-- With something leading to every box, layer 0 is empty, and the others
are the first ones behind it. -/
theorem layers_tight_whirl :
    layers Sample.whirl = [(3, 2), (1, 2), (2, 1)] ∧
      (∃ arrow, Sample.whirl.Joins arrow ∧ arrow.target = 3 ∧
        (layers Sample.whirl).lookup arrow.source = some 1) ∧
      ¬Occupied Sample.whirl 0 ∧ (∀ row, Occupied Sample.whirl row → row ≤ 3) ∧
      ∃ first ≤ 1, ∃ rows, ∀ row, Occupied Sample.whirl row ↔ first ≤ row ∧ row < rows := by
  obtain ⟨hboxes, hrows⟩ := layers_tight Sample.whirl
  -- On a cycle no box is in layer 0.
  have hlayers : layers Sample.whirl = [(3, 2), (1, 2), (2, 1)] := by
    cbv
  have hlookup : (layers Sample.whirl).lookup 3 = some 2 := by
    rw [hlayers]
    rfl
  refine ⟨hlayers, ?_, ?_, ?_, hrows⟩
  · obtain ⟨layer, hlayer, _, hbelow, _⟩ := hboxes 3 (by decide)
    obtain rfl : 2 = layer := Option.some.inj (hlookup.symm.trans hlayer)
    exact hbelow (Nat.le_refl 2)
  · rintro ⟨id, hid, hlayer⟩
    rw [hlayers] at hlayer
    fin_cases hid <;> cases hlayer
  · rintro row ⟨id, hid, hrow⟩
    obtain ⟨layer, hlayer, _, _, hle⟩ := hboxes id hid
    obtain rfl : row = layer := Option.some.inj (hrow.symm.trans hlayer)
    exact hle.trans (by decide)

end Flowchart.Layout
