import Flowchart.Proofs.Builder.Order

/-!
# `Flowchart.Proofs.Builder.BackEdges`: back edges stay inside loops

Which edges of a cycle a layout takes for back edges depends on the order of
the blocks; it need not be the one that goes back to the header of a loop.
But it is always an edge between blocks of one loop. Some edge of its cycle
goes back to a header, from inside the loop. The loop is entered at its
header only, and a cycle that passes no block twice passes the header once.
So it never leaves the loop.

* `key_inj`: edges with the same key join the same blocks;
* `ServedLoop.entered`: a loop is entered at its header;
* `backEdges_of_build`: the back edges of a layout lie inside loops.
-/

set_option autoImplicit false

namespace Flowchart

/-! ### Keys -/

namespace Draft

/-- An id has no hyphen in it. -/
theorem hyphen_notMem_idOf (n : Nat) : CodePoint.ofChar '-' ∉ idOf n := by
  intro h
  rcases List.mem_append.1 h with h | h <;>
    obtain ⟨c, hc, heq⟩ := List.mem_map.1 h <;>
    rw [CodePoint.ofChar_inj] at heq <;>
    subst heq
  · exact absurd hc (by decide)
  · rw [Nat.toString_eq_repr, Nat.toList_repr] at hc
    exact absurd (Nat.isDigit_of_mem_toDigits (by decide) (by decide) hc) (by decide)

/-- Edges with the same key join the same blocks. -/
theorem key_inj {k m k' m' : Nat} {label label' : Option Text}
    (h : Flowchart.Edge.key ⟨idOf k, idOf m, label⟩ =
      Flowchart.Edge.key ⟨idOf k', idOf m', label'⟩) :
    k = k' ∧ m = m' := by
  have harrow : ("->" : Text) = [CodePoint.ofChar '-', CodePoint.ofChar '>'] := by decide
  simp only [Flowchart.Edge.key, harrow, List.append_assoc, List.cons_append, List.nil_append] at h
  have hrest : CodePoint.ofChar '-' ∉ CodePoint.ofChar '>' :: idOf m := by
    rw [List.mem_cons, not_or]
    exact ⟨by decide, hyphen_notMem_idOf m⟩
  obtain ⟨hk, _, hm⟩ := (List.append_cons_inj_of_notMem (hyphen_notMem_idOf k) hrest).1 h
  exact ⟨idOf_inj.1 hk, idOf_inj.1 (List.cons.inj hm).2⟩

end Draft

namespace Builder

open Draft Layout

section

variable {builder : Builder} {tree : SyntaxTree} {graph : Graph} {notices : List Notice}

/-- The edges of a graph that was built that have the same key join the same
blocks. -/
theorem ends_of_key (h : (builder.build tree).2 = .ok (graph, notices)) {edge other : Edge}
    (hedge : edge ∈ graph.edges) (hother : other ∈ graph.edges) (hkey : edge.key = other.key) :
    edge.source = other.source ∧ edge.target = other.target := by
  obtain ⟨drawn, _, rfl⟩ := exists_drawn h hedge
  obtain ⟨drawn', _, rfl⟩ := exists_drawn h hother
  obtain ⟨hsource, htarget⟩ := key_inj hkey
  exact ⟨congrArg idOf hsource, congrArg idOf htarget⟩

/-- The ids of blocks of a draft. -/
def idsOf (blocks : List Draft.Block) : List Text :=
  (blocks.map Draft.Block.number).map idOf

/-- Control gets into a loop at its header only. -/
theorem entered_of_servedLoop (h : (builder.build tree).2 = .ok (graph, notices)) {r : Request}
    {d : Draft} {blocks : List Draft.Block} {edges : List Draft.Edge}
    (hloop : ServedLoop builder.table (builder.table.mark tree) r d blocks edges) {edge : Edge}
    (hedge : edge ∈ graph.edges) (hsource : edge.source ∉ idsOf blocks)
    (htarget : edge.target ∈ idsOf blocks) : edge.target = idOf d.next := by
  have hwhole := outline_loop hloop.mode hloop.category
  have hdrafted := servedLoop hloop.served hloop.mode hloop.category hwhole
  have hblocks := List.append_cancel_left (hloop.adds.blocks.symm.trans hdrafted.adds.blocks)
  subst hblocks
  exact (closed_of_sealed h (hloop.served.sealed hwhole)).entered edge hedge hsource htarget

/-- A cycle that passes no block twice stays inside a loop. -/
theorem exists_loop_of_isCycle (h : (builder.build tree).2 = .ok (graph, notices))
    {cycle : List (Arrow Text)} (hcycle : graph.diagram.IsCycle cycle)
    (hnodup : (cycle.map Arrow.source).Nodup) :
    ∃ r d blocks edges,
      ServedLoop builder.table (builder.table.mark tree) r d blocks edges ∧
        ∀ arrow ∈ cycle, arrow.source ∈ idsOf blocks ∧ arrow.target ∈ idsOf blocks := by
  have hjoins : ∀ arrow ∈ cycle, ∃ edge ∈ graph.edges, edge.arrow = arrow := by
    intro arrow harrow
    obtain ⟨_, _, hleads⟩ := hcycle
    exact List.mem_map.1 (hleads.joins harrow).1
  -- Some edge of the cycle leads back to the header of a loop.
  obtain ⟨back, hback, hle⟩ := hcycle.exists_le graph.rank
  obtain ⟨edge, hedge, rfl⟩ := hjoins back hback
  obtain ⟨⟨r, d, blocks, edges, drawn, hreturn, rfl⟩, _⟩ :=
    (forward_or_goesBack h hedge).2.resolve_left (Nat.not_lt_of_le hle)
  refine ⟨r, d, blocks, edges, hreturn.toServedLoop, fun arrow harrow => ?_⟩
  refine hcycle.confined (· ∈ idsOf blocks) hnodup (fun arrow harrow hout hin => ?_) hback
    (mem_map_idOf.2 hreturn.source) (congrArg idOf hreturn.target) harrow
  obtain ⟨edge, hedge, rfl⟩ := hjoins arrow harrow
  exact entered_of_servedLoop h hreturn.toServedLoop hedge hout hin

/-- The back edges that are found on a layout of a graph that was built join
blocks of one loop, each of them. -/
theorem backEdges_of_build (h : (builder.build tree).2 = .ok (graph, notices)) {α : Type}
    [Arithmetic α] [OrdersWholes α] {measure : Measure α} {style : Style α}
    {placed : List (Placed Text α)} (hplace : place measure style graph.diagram = .ok placed) :
    ∃ found, backEdges graph.diagram.arrows placed = .ok found ∧
      ∀ edge ∈ graph.edges, edge.key ∈ found → ∃ r d blocks edges,
        ServedLoop builder.table (builder.table.mark tree) r d blocks edges ∧
          edge.source ∈ idsOf blocks ∧ edge.target ∈ idsOf blocks := by
  obtain ⟨found, hfound, hkeys⟩ := exists_backEdges hplace
  -- A back edge lies on a cycle, and a cycle lies in a loop.
  refine ⟨found, hfound, fun edge hedge hkey => ?_⟩
  obtain ⟨arrow, harrow, hback, hkey⟩ := (hkeys edge.key).1 hkey
  obtain ⟨cycle, hcycle, hmem, hnodup⟩ := exists_cycle_of_isBackEdge hplace harrow hback
  obtain ⟨r, d, blocks, edges, hloop, hinside⟩ := exists_loop_of_isCycle h hcycle hnodup
  obtain ⟨other, hother, rfl⟩ := List.mem_map.1 harrow
  obtain ⟨hsource, htarget⟩ := ends_of_key h hedge hother hkey.symm
  rw [hsource, htarget]
  exact ⟨r, d, blocks, edges, hloop, hinside _ hmem⟩

end

namespace Sample

/-- A block in its place in a column of boxes. -/
def seat (block : Block) (row : Nat) : Placed Text Rat :=
  ⟨block.box, 0, 110 * row, 100, 54, 0, row⟩

/-- The layout of the graph of the sample. -/
def placedGraph : List (Placed Text Rat) :=
  [seat (block "cfg_3" "entry" .entry "root") 0, seat (block "cfg_1" "" .statement "root-0-0") 1,
    seat (block "cfg_0" "while" .loop "root-0") 2, seat (block "cfg_2" "" .statement "root-1") 3]

/-- The layout of the graph of the sample. -/
theorem place_graph :
    place Layout.Sample.flat Style.default graph.diagram = .ok placedGraph := by
  cbv

/-- The edge into the body is found to go back, and no other one is. -/
theorem backEdges_graph : backEdges graph.diagram.arrows placedGraph = .ok ["cfg_0->cfg_1"] := by
  cbv

end Sample

/-- In the layout of the sample it is the edge into the body that goes back,
and it joins blocks of the loop. -/
theorem backEdges_of_build_sample :
    (Sample.builder.build Draft.Sample.program).2 =
        .ok (Sample.graph, [.entryPromoted "cfg_3" "cfg_0", .graphBuilt 4 4]) ∧
      place Layout.Sample.flat Style.default Sample.graph.diagram = .ok Sample.placedGraph ∧
      backEdges Sample.graph.diagram.arrows Sample.placedGraph = .ok ["cfg_0->cfg_1"] ∧
      ∃ r d blocks edges,
        ServedLoop Sample.builder.table (Sample.builder.table.mark Draft.Sample.program) r d blocks
            edges ∧
          ("cfg_0" : Text) ∈ idsOf blocks ∧ ("cfg_1" : Text) ∈ idsOf blocks := by
  obtain ⟨found, hfound, hinside⟩ := backEdges_of_build Sample.build_program Sample.place_graph
  cases hfound.symm.trans Sample.backEdges_graph
  have hedge : ⟨"cfg_0", "cfg_1", some "body"⟩ ∈ Sample.graph.edges := List.mem_cons_self
  exact ⟨Sample.build_program, Sample.place_graph, Sample.backEdges_graph,
    hinside _ hedge List.mem_cons_self⟩

end Builder

end Flowchart
