import Mathlib.Algebra.Order.Ring.Rat
import Mathlib.Data.Rat.Cast.Order
import Flowchart.Json.Arithmetic
import Flowchart.Proofs.Diagram.Cycles
import Flowchart.Proofs.Layout.Success

/-!
# `Flowchart.Proofs.Layout.BackEdges`: arrows that go back

An arrow goes back if it ends in the row it starts in or above. On a layout
such arrows are a feedback set, and one without waste: each of them lies on a
cycle, and every cycle has one. The first comes from how layers are found,
the second from rows being numbers, which cannot rise all the way around.

* `OrdersWholes`: lengths among which whole numbers keep their order;
* `exists_cycle_of_isBackEdge`: an arrow that goes back lies on a cycle;
* `backEdges_place`: what the back edges of a layout are.
-/

set_option autoImplicit false

namespace Flowchart.Layout

open Arithmetic

/-- Lengths among which whole numbers keep their order, as those of a settings
file and fractions do. -/
class OrdersWholes (α : Type) [Arithmetic α] : Prop where
  holds_whole : ∀ m n : Int, holds .lessOrEqual (whole m : α) (whole n) = .ok (decide (m ≤ n))

instance : OrdersWholes Rat where
  holds_whole m n := by
    simp [holds, whole, Relation.holdsExactly]

instance : OrdersWholes Json where
  holds_whole m n := by
    have haccepts : Relation.accepts .lessOrEqual (compare m n) = decide (m ≤ n) := by
      rcases Int.lt_trichotomy m n with h | rfl | h
      · simp [compare, compareOfLessAndEq, Relation.accepts, h, Int.le_of_lt h]
      · simp [compare, compareOfLessAndEq, Relation.accepts]
      · have hlt : ¬m < n := by omega
        have hne : m ≠ n := by omega
        have hle : ¬m ≤ n := by omega
        simp [compare, compareOfLessAndEq, Relation.accepts, hlt, hne, hle]
    exact congrArg Except.ok haccepts

variable {ι α : Type} [DecidableEq ι] [Arithmetic α] {measure : Measure α} {style : Style α}
  {diagram : Diagram ι} {placed : List (Placed ι α)}

/-- An arrow goes back in a layout if it joins boxes and does not lead to a
greater layer. -/
theorem isBackEdge_place [OrdersWholes α] (h : place measure style diagram = .ok placed)
    (arrow : Arrow ι) : isBackEdge placed arrow =
      .ok (decide ((arrow.source ∈ diagram.ids ∧ arrow.target ∈ diagram.ids) ∧
        layerOf (layers diagram) arrow.target ≤ layerOf (layers diagram) arrow.source)) := by
  unfold isBackEdge
  rw [rowOf?_place h, rowOf?_place h]
  by_cases hsource : arrow.source ∈ diagram.ids
  · by_cases htarget : arrow.target ∈ diagram.ids
    · simp [hsource, htarget, OrdersWholes.holds_whole]
    · simp [hsource, htarget]
  · simp [hsource]

/-- An arrow that goes back lies on a cycle. -/
theorem exists_cycle_of_isBackEdge [OrdersWholes α] (h : place measure style diagram = .ok placed)
    {arrow : Arrow ι} (harrow : arrow ∈ diagram.arrows)
    (hback : isBackEdge placed arrow = .ok true) :
    ∃ cycle, diagram.IsCycle cycle ∧ arrow ∈ cycle ∧ (cycle.map Arrow.source).Nodup := by
  rw [isBackEdge_place h] at hback
  obtain ⟨⟨hsource, htarget⟩, hle⟩ := of_decide_eq_true (Except.ok.inj hback)
  have hjoins : diagram.Joins arrow := ⟨harrow, hsource, htarget⟩
  have hprec := Diagram.precedes_iff.2 ⟨arrow, hjoins, rfl, rfl⟩
  rcases layerOf_lt_or_reaches hprec htarget with hlt | hreaches
  · exact absurd hle (Nat.not_le_of_lt hlt)
  · exact Diagram.exists_cycle hjoins hreaches

/-- Every cycle has an arrow that goes back. -/
theorem exists_isBackEdge_of_isCycle [OrdersWholes α] (h : place measure style diagram = .ok placed)
    {cycle : List (Arrow ι)} (hcycle : diagram.IsCycle cycle) :
    ∃ arrow ∈ cycle, isBackEdge placed arrow = .ok true := by
  obtain ⟨arrow, hmem, hle⟩ := hcycle.exists_le (layerOf (layers diagram))
  obtain ⟨_, _, hleads⟩ := hcycle
  have hjoins := hleads.joins hmem
  exact ⟨arrow, hmem, by rw [isBackEdge_place h, decide_eq_true ⟨hjoins.2, hle⟩]⟩

/-- The keys that are found are those of the arrows that go back. -/
theorem exists_backEdges [OrdersWholes α] (h : place measure style diagram = .ok placed) :
    ∃ found, backEdges diagram.arrows placed = .ok found ∧ ∀ key, key ∈ found ↔
      ∃ arrow ∈ diagram.arrows, isBackEdge placed arrow = .ok true ∧ arrow.key = key := by
  unfold backEdges
  rw [filterM_eq_ok (isBackEdge_place h), ok_bind]
  refine ⟨_, rfl, fun key => ?_⟩
  simp only [List.mem_mergeSort, List.mem_eraseDups, List.mem_map, List.mem_filter,
    isBackEdge_place h, Except.ok.injEq, and_assoc]

/-- The back edges of a layout are a feedback set of arrows on cycles. Each
arrow that goes back lies on a cycle that passes no box twice, every cycle
has such an arrow, and the keys that are found are theirs: without cycles
there are none, and without the arrows that have them there are no cycles. -/
theorem backEdges_place [OrdersWholes α] (h : place measure style diagram = .ok placed) :
    (∀ arrow ∈ diagram.arrows, isBackEdge placed arrow = .ok true →
      ∃ cycle, diagram.IsCycle cycle ∧ arrow ∈ cycle ∧ (cycle.map Arrow.source).Nodup) ∧
    (∀ cycle, diagram.IsCycle cycle → ∃ arrow ∈ cycle, isBackEdge placed arrow = .ok true) ∧
    ∃ found, backEdges diagram.arrows placed = .ok found ∧
      (∀ key, key ∈ found ↔
        ∃ arrow ∈ diagram.arrows, isBackEdge placed arrow = .ok true ∧ arrow.key = key) ∧
      (diagram.Acyclic → found = []) ∧ (diagram.without found).Acyclic := by
  obtain ⟨found, hfound, hkeys⟩ := exists_backEdges h
  refine ⟨fun arrow harrow => exists_cycle_of_isBackEdge h harrow,
    fun cycle => exists_isBackEdge_of_isCycle h, found, hfound, hkeys, ?_, ?_⟩
  · intro hacyclic
    refine List.eq_nil_iff_forall_not_mem.2 fun key hkey => ?_
    obtain ⟨arrow, harrow, hback, _⟩ := (hkeys key).1 hkey
    obtain ⟨cycle, hcycle, _⟩ := exists_cycle_of_isBackEdge h harrow hback
    exact hacyclic cycle hcycle
  -- A cycle that is left would have an arrow whose key was found.
  · intro cycle hcycle
    obtain ⟨hcycle, hleft⟩ := hcycle.of_without
    obtain ⟨arrow, hmem, hback⟩ := exists_isBackEdge_of_isCycle h hcycle
    obtain ⟨_, _, hleads⟩ := hcycle
    have harrow := (hleads.joins hmem).1
    exact hleft arrow hmem ((hkeys arrow.key).2 ⟨arrow, harrow, hback, rfl⟩)

namespace Sample

/-- Two boxes that lead to each other, one that leads to itself, and one that
leads nowhere. One arrow is there twice. -/
def loops : Diagram Nat :=
  ⟨[box 1, box 2, box 3, box 4],
    [arrow 1 2 "1->2", arrow 2 1 "2->1", arrow 1 2 "1->2", arrow 3 3 "3->3", arrow 4 9 "4->9"]⟩

/-- The layout of the diagram. -/
def placedLoops : List (Placed Nat Rat) :=
  [seat 4 80 0 0 0, seat 2 0 90 0 1, seat 3 160 90 1 1, seat 1 80 180 0 2]

/-- The layout of the diagram with loops. -/
theorem place_loops : place flat Style.default loops = .ok placedLoops := by
  cbv

end Sample

/-- Box 2 is found before box 1, so it is the arrow to it that goes back. -/
theorem backEdges_place_loops :
    place Sample.flat Style.default Sample.loops = .ok Sample.placedLoops ∧
    backEdges Sample.loops.arrows Sample.placedLoops = .ok ["1->2", "3->3"] ∧
    (∀ arrow ∈ Sample.loops.arrows, isBackEdge Sample.placedLoops arrow = .ok true →
      ∃ cycle, Sample.loops.IsCycle cycle ∧ arrow ∈ cycle ∧ (cycle.map Arrow.source).Nodup) ∧
    (∀ cycle, Sample.loops.IsCycle cycle →
      ∃ arrow ∈ cycle, isBackEdge Sample.placedLoops arrow = .ok true) ∧
    (Sample.loops.without ["1->2", "3->3"]).Acyclic := by
  have hfound : backEdges Sample.loops.arrows Sample.placedLoops = .ok ["1->2", "3->3"] := by
    cbv
  obtain ⟨hcycles, hall, found, hsome, _, _, hacyclic⟩ := backEdges_place Sample.place_loops
  rw [hfound] at hsome
  cases hsome
  exact ⟨Sample.place_loops, hfound, hcycles, hall, hacyclic⟩

end Flowchart.Layout
