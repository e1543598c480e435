import Flowchart.Proofs.Diagram.Rearranged
import Flowchart.Proofs.Layout.Tightness

/-!
# `Flowchart.Proofs.Layout.LongestPath`: layers without cycles

Where a diagram has no cycle, no box is met that is still being looked at. So
each box lies below all of its predecessors and right below one of them, and
its layer is the number of arrows on a longest path to it. That number does
not depend on the order in which boxes and arrows come, although the search
for it does.

* `layerOf_lt`: every arrow leads to a greater layer;
* `exists_leads_of_layerOf`: as many arrows as its layer says lead to a box;
* `isGreatest_layerOf`: no path to a box is longer than its layer says;
* `exists_rows`: no layer is left out;
* `layers_acyclic`: what the layers of a diagram without cycles are.
-/

set_option autoImplicit false

namespace Flowchart.Layout

open Diagram

variable {ι : Type} [DecidableEq ι] {diagram diagram' : Diagram ι}

/-- Only boxes have a layer. -/
theorem lookup_layers_eq_none {id : ι} (h : id ∉ diagram.ids) :
    (layers diagram).lookup id = none := by
  cases hlookup : (layers diagram).lookup id with
  | none => rfl
  | some layer => exact absurd (known_assign (predecessorsOf diagram) id layer hlookup) h

/-- Without cycles, every arrow between boxes leads to a greater layer. -/
theorem layerOf_lt (h : diagram.Acyclic) {arrow : Arrow ι}
    (harrow : diagram.Joins arrow) :
    layerOf (layers diagram) arrow.source < layerOf (layers diagram) arrow.target := by
  have hprec := precedes_iff.2 ⟨arrow, harrow, rfl, rfl⟩
  exact (layerOf_lt_or_reaches hprec harrow.2.2).resolve_right (h.not_reaches hprec)

/-- Without cycles, a box below the first layer lies right below a box that an
arrow joins to it. -/
theorem exists_joins_of_layerOf (h : diagram.Acyclic) {id : ι} {layer : Nat}
    (hid : id ∈ diagram.ids) (hlayer : layerOf (layers diagram) id = layer + 1) :
    ∃ arrow, diagram.Joins arrow ∧ arrow.target = id ∧
      layerOf (layers diagram) arrow.source = layer := by
  have hlookup := lookup_layers hid
  rw [hlayer] at hlookup
  cases layer with
  | zero =>
    -- Something leads to the box, and all of it lies above.
    have hsome : ¬∀ arrow, diagram.Joins arrow → arrow.target ≠ id := by
      rw [← layer_eq_zero_iff hlookup]
      omega
    push Not at hsome
    obtain ⟨arrow, harrow, rfl⟩ := hsome
    have hlt := layerOf_lt h harrow
    exact ⟨arrow, harrow, rfl, by omega⟩
  | succ layer =>
    obtain ⟨arrow, harrow, htarget, habove⟩ := exists_joins_of_layer hlookup (by omega)
    refine ⟨arrow, harrow, htarget, ?_⟩
    rw [layerOf, habove]
    rfl

/-- As many arrows as its layer says lead to a box. -/
theorem exists_leads_of_layerOf (h : diagram.Acyclic) {id : ι} (hid : id ∈ diagram.ids) :
    ∃ start arrows, diagram.Leads start arrows id ∧
      arrows.length = layerOf (layers diagram) id := by
  induction hlayer : layerOf (layers diagram) id generalizing id with
  | zero => exact ⟨id, [], rfl, rfl⟩
  | succ layer ih =>
    obtain ⟨arrow, harrow, rfl, habove⟩ := exists_joins_of_layerOf h hid hlayer
    obtain ⟨start, arrows, hleads, hlength⟩ := ih harrow.2.1 habove
    refine ⟨start, arrows ++ [arrow], hleads.append ⟨harrow, rfl, rfl⟩, ?_⟩
    rw [List.length_append, List.length_singleton, hlength]

/-- Without cycles, the layer of a box is the length of a longest path to it. -/
theorem isGreatest_layerOf (h : diagram.Acyclic) {id : ι} (hid : id ∈ diagram.ids) :
    IsGreatest (diagram.pathLengths id) (layerOf (layers diagram) id) := by
  constructor
  -- Layers rise along any way, so a way is a path and no longer than they say.
  · obtain ⟨start, arrows, hleads, hlength⟩ := exists_leads_of_layerOf h hid
    have hnodup := hleads.nodup (layerOf (layers diagram)) fun arrow harrow =>
      layerOf_lt h (hleads.joins harrow)
    exact ⟨start, arrows, hleads, hnodup, hlength⟩
  · intro n hn
    obtain ⟨start, arrows, hleads, _, rfl⟩ := hn
    have hle := hleads.le (layerOf (layers diagram)) fun arrow harrow =>
      layerOf_lt h (hleads.joins harrow)
    omega

/-- Without cycles, the rows that hold boxes are the first few ones. -/
theorem exists_rows (h : diagram.Acyclic) :
    ∃ rows, ∀ row, (∃ id ∈ diagram.ids, layerOf (layers diagram) id = row) ↔ row < rows := by
  simp only [← occupied_iff]
  obtain ⟨first, hfirst, rows, hrows⟩ := exists_occupied_iff diagram
  -- A box in layer 1 has one above it, so layer 0 is not left out either.
  have habove : Occupied diagram 1 → Occupied diagram 0 := by
    simp only [occupied_iff]
    rintro ⟨id, hid, hlayer⟩
    obtain ⟨arrow, harrow, _, hsource⟩ := exists_joins_of_layerOf h hid hlayer
    exact ⟨arrow.source, harrow.2.1, hsource⟩
  rw [hrows, hrows] at habove
  rcases Nat.lt_or_ge first rows with hlt | hge
  · refine ⟨rows, fun row => ?_⟩
    rw [hrows]
    omega
  · refine ⟨0, fun row => ?_⟩
    rw [hrows]
    omega

/-- Diagrams that join the same boxes have the same layers, if they have no
cycle. -/
theorem lookup_layers_of_alike (h : diagram.Acyclic) (halike : Alike diagram diagram') (id : ι) :
    (layers diagram').lookup id = (layers diagram).lookup id := by
  by_cases hid : id ∈ diagram.ids
  · have hid' := (halike.1.ids id).1 hid
    have hgreatest := isGreatest_layerOf (halike.2.acyclic h) hid'
    rw [← halike.pathLengths_eq id] at hgreatest
    rw [lookup_layers hid, lookup_layers hid', (isGreatest_layerOf h hid).unique hgreatest]
  · rw [lookup_layers_eq_none hid, lookup_layers_eq_none fun hid' => hid ((halike.1.ids id).2 hid')]

/-- Without cycles, the layer of each box is the length of a longest path to
it. So every arrow between boxes leads to a greater layer, the rows that hold
boxes are the first few ones, and nothing changes when boxes or arrows are put
in another order, arrows are repeated, or arrows are added that lead from or
to nowhere. -/
theorem layers_acyclic (h : diagram.Acyclic) :
    (∀ id ∈ diagram.ids, ∃ layer, (layers diagram).lookup id = some layer ∧
      IsGreatest (diagram.pathLengths id) layer) ∧
    (∀ arrow, diagram.Joins arrow →
      layerOf (layers diagram) arrow.source < layerOf (layers diagram) arrow.target) ∧
    (∃ rows, ∀ row, (∃ id ∈ diagram.ids, layerOf (layers diagram) id = row) ↔ row < rows) ∧
    ∀ diagram', Relation.ReflTransGen Rearranged diagram diagram' →
      ∀ id, (layers diagram').lookup id = (layers diagram).lookup id := by
  refine ⟨?_, ?_, exists_rows h, ?_⟩
  · intro id hid
    exact ⟨layerOf (layers diagram) id, lookup_layers hid, isGreatest_layerOf h hid⟩
  · intro arrow harrow
    exact layerOf_lt h harrow
  · intro diagram' hchanges id
    exact lookup_layers_of_alike h (alike_of_rearranged hchanges) id

namespace Sample

/-- Three boxes in a row, with a way around the second one. -/
def detour : Diagram Nat :=
  ⟨[box 1, box 2, box 3], [arrow 1 3 "1->3", arrow 1 2 "1->2", arrow 2 3 "2->3"]⟩

/-- The boxes the other way around, with one arrow twice and one from nowhere. -/
def turned : Diagram Nat :=
  ⟨[box 3, box 2, box 1],
    [arrow 9 3 "9->3", arrow 1 3 "1->3 again", arrow 1 3 "1->3", arrow 1 2 "1->2",
      arrow 2 3 "2->3"]⟩

/-- The diagram with a detour has no cycles. -/
theorem acyclic_detour : detour.Acyclic := by
  intro cycle hcycle
  obtain ⟨first, hmem, hle⟩ := hcycle.exists_le id
  obtain ⟨_, _, hleads⟩ := hcycle
  have hrise : ∀ arrow ∈ detour.arrows, arrow.source < arrow.target := by decide
  exact Nat.not_le_of_lt (hrise first (hleads.joins hmem).1) hle

/-- It can be rearranged into the one that is turned. -/
theorem rearranged_detour : Relation.ReflTransGen Rearranged detour turned := by
  have hboxes : Rearranged detour ⟨[box 3, box 2, box 1], detour.arrows⟩ :=
    .boxes (List.reverse_perm [box 3, box 2, box 1])
  have hagain : Rearranged ⟨[box 3, box 2, box 1], detour.arrows⟩
      ⟨[box 3, box 2, box 1], arrow 1 3 "1->3 again" :: detour.arrows⟩ :=
    .again List.mem_cons_self rfl rfl
  exact ((Relation.ReflTransGen.single hboxes).tail hagain).tail (.loose (.inl (by decide)))

end Sample

/-- The long way decides the layer of the last box, in whatever order the
diagram is written down. -/
theorem layers_acyclic_detour :
    Sample.detour.Acyclic ∧ layers Sample.detour = [(3, 2), (2, 1), (1, 0)] ∧
    IsGreatest (Sample.detour.pathLengths 3) 2 ∧
    Relation.ReflTransGen Rearranged Sample.detour Sample.turned ∧
    (layers Sample.turned).lookup 3 = some 2 := by
  have hlayers : layers Sample.detour = [(3, 2), (2, 1), (1, 0)] := by
    cbv
  obtain ⟨hgreatest, _, _, hsame⟩ := layers_acyclic Sample.acyclic_detour
  obtain ⟨layer, hlayer, hlongest⟩ := hgreatest 3 (by decide)
  have hturned := hsame Sample.turned Sample.rearranged_detour 3
  rw [hlayers] at hlayer hturned
  obtain rfl : 2 = layer := Option.some.inj hlayer
  exact ⟨Sample.acyclic_detour, hlayers, hlongest, Sample.rearranged_detour, hturned⟩

end Flowchart.Layout
