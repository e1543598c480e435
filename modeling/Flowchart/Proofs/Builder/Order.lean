import Mathlib.Tactic.FinCases
import Flowchart.Proofs.Builder.Listing
import Flowchart.Proofs.Layout.BackEdges
import Flowchart.Proofs.Layout.Success
import Flowchart.Proofs.Outline.Constructs
import Flowchart.Proofs.Outline.Region

/-!
# `Flowchart.Proofs.Builder.Order`: forward order and loop returns

Along the edges of a graph that was built, control goes on to blocks that are
listed later, an entry of its own included. The one way back is from the body
of a loop to the header of the loop, and the edge that does it is drawn while
that loop is served. Labels do not tell: an arm of a choice may be labelled
like such an edge.

Without loops there is no way back, so the graph has no cycle and a layout of
it has no back edge.

* `ServedLoop`: what is drafted while a loop of a tree is served;
* `forward_or_returns_draft`: the edges of a draft;
* `forward_or_goesBack`: the edges of a graph that was built;
* `order_of_build`: these are the only ways, and without loops there is none
  back.
-/

set_option autoImplicit false

namespace Flowchart

namespace Draft

open Outline

/-- What is drafted while a loop of a tree is served. The header of the loop
is the first of the blocks. -/
structure ServedLoop (table : KindTable) (tree : MarkedTree) (r : Request) (d : Draft)
    (blocks : List Block) (edges : List Edge) : Prop where
  served : Served table tree r d
  mode : r.mode = .visit
  category : table.category? r.tree.label.kind = some .loop
  adds : Adds d (serve table r d).2 blocks edges

/-- An edge goes from the end of the body of a loop back to the header of the
loop, and is drawn while the loop is served. -/
structure LoopReturn (table : KindTable) (tree : MarkedTree) (r : Request) (d : Draft)
    (blocks : List Block) (edges : List Edge) (edge : Edge) : Prop
    extends ServedLoop table tree r d blocks edges where
  drawn : edge ∈ edges
  flow : edge.flow = .next
  target : edge.target = d.next
  source : edge.source ∈ blocks.map Block.number
  backward : edge.target < edge.source
  header : ∃ block ∈ (draft table tree).draft.blocks, block.number = d.next ∧ block.kind = .loop

section

variable {table : KindTable} {tree : MarkedTree}

/-- What is drafted for a loop is its outline. -/
theorem servedLoop {r : Request} {d : Draft} (h : Served table tree r d) (hmode : r.mode = .visit)
    (hcategory : table.category? r.tree.label.kind = some .loop) {whole : Outline}
    (hwhole : outline table r = some whole) :
    ServedLoop table tree r d (whole.blocks d.next) (whole.edges d.next) := by
  have hadds := (drafts table r d.next d rfl).2
  rw [hwhole] at hadds
  exact ⟨h, hmode, hcategory, hadds⟩

/-- The blocks that are drafted while a request is served stay in the draft of
the tree. -/
theorem Served.mem_blocks {r : Request} {d : Draft} (h : Served table tree r d)
    {blocks : List Block} {edges : List Edge} (hadds : Adds d (serve table r d).2 blocks edges)
    {block : Block} (hblock : block ∈ blocks) : block ∈ (draft table tree).draft.blocks := by
  obtain ⟨later, drawn, hlater⟩ := h.goes_on
  rw [hlater.blocks, hadds.blocks]
  exact List.mem_append_left _ (List.mem_append_right _ hblock)

/-- What goes back to the header of a loop inside the outline of a tree is
drawn while a loop of the tree is served. -/
theorem loopReturn_of_returns {whole : Outline}
    (hwhole : outline table (rootRequest table tree) = some whole) {edge : Edge}
    (h : Returns (0, whole) edge) :
    ∃ r d blocks edges, LoopReturn table tree r d blocks edges edge := by
  -- A loop at some depth of the outline was served as a request of its own.
  obtain ⟨origin, body, hwithin, hsource⟩ := h.loop
  obtain ⟨r, d, hserved, hmode, hcategory, hloop, hnext⟩ := exists_served hwhole hwithin rfl
  have hdrafted := servedLoop hserved hmode hcategory hloop
  refine ⟨r, d, _, _, hdrafted, ?_, h.flow, hnext.symm, ?_, h.backward, ?_⟩
  · rw [Outline.edges, exitsIfAny, hnext]
    exact List.mem_append_right _ (mem_joins.2 ⟨hsource, rfl, h.flow⟩)
  · have hcovers := covers_exit hsource
    rw [mem_blocks_iff, hnext]
    unfold Covers at hcovers ⊢
    simp only [size, sizeIfAny]
    omega
  · exact ⟨_, hserved.mem_blocks hdrafted.adds List.mem_cons_self, rfl, rfl⟩

/-- The edges of the draft of a tree join its blocks. They lead to blocks that
are listed later, or from the body of a loop back to its header. -/
theorem forward_or_returns_draft {edge : Edge} (h : edge ∈ (draft table tree).edges) :
    (edge.source ∈ listing table tree ∧ edge.target ∈ listing table tree) ∧
      ((listing table tree).idxOf edge.source < (listing table tree).idxOf edge.target ∨
        ∃ r d blocks edges, LoopReturn table tree r d blocks edges edge) := by
  rcases mem_edges_draft.1 h with h | ⟨hentry, rfl⟩
  · have hdrawn : edge ∈ (draft table tree).draft.edges := edges_draft table tree ▸ h
    obtain ⟨hsource, htarget⟩ := ends_lt_next hdrawn
    refine ⟨⟨mem_listing hsource, mem_listing htarget⟩, ?_⟩
    cases hwhole : outline table (rootRequest table tree) with
    | none =>
      rw [hwhole] at h
      cases h
    | some whole =>
      rw [hwhole] at h
      rcases forward_or_returns h with hlt | hreturns
      · exact .inl (idxOf_lt_idxOf hlt htarget)
      · exact .inr (loopReturn_of_returns hwhole hreturns)
  -- An entry of its own is listed first, so its edge goes forward.
  · refine ⟨⟨?_, mem_listing hentry.next_pos⟩, .inl (idxOf_entry hentry)⟩
    rw [listing_of_needsEntry hentry]
    exact List.mem_cons_self

end

end Draft

namespace Builder

open Draft Layout

section

variable {builder : Builder} {tree : SyntaxTree} {graph : Graph} {notices : List Notice}

/-- An edge of a graph goes back to the header of a loop, and was drawn while
that loop was served. -/
structure GoesBack (builder : Builder) (tree : SyntaxTree) (graph : Graph) (edge : Edge) :
    Prop where
  drawn : ∃ r d blocks edges drawn,
    LoopReturn builder.table (builder.table.mark tree) r d blocks edges drawn ∧
      edge = drawn.write builder.source
  label : edge.label = some "next"
  header : ∃ block ∈ graph.blocks, block.id = edge.target ∧ block.kind = .loop
  backward : graph.rank edge.target < graph.rank edge.source

/-- A block of the draft is a block of the graph. -/
theorem exists_made (h : (builder.build tree).2 = .ok (graph, notices)) {drawn : Draft.Block}
    (hdrawn : drawn ∈ (draft builder.table (builder.table.mark tree)).draft.blocks) :
    ∃ made ∈ graph.blocks, drawn.Writes made := by
  have hmem : drawn ∈ (draft builder.table (builder.table.mark tree)).blocks :=
    List.mem_append_right _ hdrawn
  obtain ⟨i, hi, rfl⟩ := List.getElem_of_mem hmem
  have hwrites := blocks_of_build h
  have hi' : i < graph.blocks.length := hwrites.length_eq ▸ hi
  exact ⟨graph.blocks[i], List.getElem_mem hi', hwrites.get hi hi'⟩

/-- What goes back to the header of a loop in the draft does so in the
graph. -/
theorem goesBack_of_loopReturn (h : (builder.build tree).2 = .ok (graph, notices)) {r : Request}
    {d : Draft} {blocks : List Draft.Block} {edges : List Draft.Edge} {drawn : Draft.Edge}
    (hreturn : LoopReturn builder.table (builder.table.mark tree) r d blocks edges drawn) :
    GoesBack builder tree graph (drawn.write builder.source) := by
  refine ⟨⟨r, d, blocks, edges, drawn, hreturn, rfl⟩, ?_, ?_, ?_⟩
  · rw [Draft.Edge.write, hreturn.flow]
    rfl
  · obtain ⟨block, hblock, hnumber, hkind⟩ := hreturn.header
    obtain ⟨made, hmade, hwrites⟩ := exists_made h hblock
    refine ⟨made, hmade, ?_, hwrites.kind.trans hkind⟩
    rw [hwrites.id, hnumber, ← hreturn.target]
    rfl
  -- The source is one of the blocks of the loop, and these stay in the listing.
  · obtain ⟨block, hblock, hnumber⟩ := List.mem_map.1 hreturn.source
    have hmem := List.mem_map_of_mem (f := Draft.Block.number)
      (hreturn.served.mem_blocks hreturn.adds hblock)
    rw [numbers_draft, List.mem_range, hnumber] at hmem
    simp only [Draft.Edge.write, rank_of_build h]
    exact idxOf_lt_idxOf hreturn.backward hmem

/-- The edges of a graph that was built join its blocks, and lead to blocks
that are listed later or back to the header of a loop. -/
theorem forward_or_goesBack (h : (builder.build tree).2 = .ok (graph, notices)) {edge : Edge}
    (hedge : edge ∈ graph.edges) :
    (edge.source ∈ graph.ids ∧ edge.target ∈ graph.ids) ∧
      (graph.rank edge.source < graph.rank edge.target ∨ GoesBack builder tree graph edge) := by
  obtain ⟨drawn, hdrawn, rfl⟩ := exists_drawn h hedge
  obtain ⟨⟨hsource, htarget⟩, hcases⟩ := forward_or_returns_draft hdrawn
  constructor
  · rw [ids_of_build h]
    exact ⟨mem_map_idOf.2 hsource, mem_map_idOf.2 htarget⟩
  · rcases hcases with hlt | ⟨r, d, blocks, edges, hreturn⟩
    · left
      simp only [Draft.Edge.write, rank_of_build h]
      exact hlt
    · exact .inr (goesBack_of_loopReturn h hreturn)

/-- Where nothing goes back, there are no cycles. -/
theorem acyclic_of_forward {graph : Graph}
    (h : ∀ edge ∈ graph.edges, graph.rank edge.source < graph.rank edge.target) :
    graph.diagram.Acyclic := by
  intro cycle hcycle
  obtain ⟨arrow, harrow, hle⟩ := hcycle.exists_le graph.rank
  obtain ⟨_, _, hleads⟩ := hcycle
  obtain ⟨edge, hedge, rfl⟩ := List.mem_map.1 (hleads.joins harrow).1
  exact absurd (h edge hedge) (Nat.not_lt_of_le hle)

/-- Where there are no loops, nothing goes back. -/
theorem not_goesBack
    (hloop : ∀ s ∈ tree.subtrees, builder.table.category? s.label.kind ≠ some .loop)
    (edge : Edge) : ¬GoesBack builder tree graph edge := by
  rintro ⟨⟨r, d, blocks, edges, drawn, hreturn, _⟩, _⟩
  obtain ⟨s, hs, hlabel⟩ := hreturn.served.exists_subtree
  exact hloop s hs (hlabel ▸ hreturn.category)

/-- Every edge of a graph that was built leads from a block to one that is
listed later, those aside that are drawn for a loop and lead back to its
header. So where no node is a loop, the graph has no cycle, and no layout of
it has a back edge. There is a layout wherever the texts of the graph can be
measured, over lengths that nothing refuses. -/
theorem order_of_build (h : (builder.build tree).2 = .ok (graph, notices)) :
    graph.ids.Nodup ∧
    (∀ edge ∈ graph.edges, (edge.source ∈ graph.ids ∧ edge.target ∈ graph.ids) ∧
      (graph.rank edge.source < graph.rank edge.target ∨ GoesBack builder tree graph edge)) ∧
    ((∀ s ∈ tree.subtrees, builder.table.category? s.label.kind ≠ some .loop) →
      graph.diagram.Acyclic ∧
      ∀ (α : Type) [Arithmetic α] [OrdersWholes α] (measure : Measure α) (style : Style α)
        (placed : List (Placed Text α)), place measure style graph.diagram = .ok placed →
        backEdges graph.diagram.arrows placed = .ok []) ∧
    ∀ (α : Type) [Arithmetic α] [NeverRefuses α] (measure : Measure α) (style : Style α),
      Measured measure style graph.diagram →
        ∃ placed, place measure style graph.diagram = .ok placed := by
  refine ⟨nodup_ids_of_build h, fun edge hedge => forward_or_goesBack h hedge, fun hloop => ?_,
    fun α _ _ measure style hmeasured => exists_place hmeasured⟩
  -- Without a loop no edge goes back.
  have hacyclic : graph.diagram.Acyclic := acyclic_of_forward fun edge hedge =>
    (forward_or_goesBack h hedge).2.resolve_right (not_goesBack hloop edge)
  refine ⟨hacyclic, fun α _ _ measure style placed hplace => ?_⟩
  obtain ⟨found, hfound, hkeys⟩ := exists_backEdges hplace
  rw [hfound]
  refine congrArg Except.ok (List.eq_nil_iff_forall_not_mem.2 fun key hkey => ?_)
  obtain ⟨arrow, harrow, hback, _⟩ := (hkeys key).1 hkey
  obtain ⟨cycle, hcycle, _⟩ := exists_cycle_of_isBackEdge hplace harrow hback
  exact hacyclic cycle hcycle

end

namespace Sample

/-- A program of one statement. -/
def straight : SyntaxTree :=
  .node (Draft.Sample.node "all") [.node (Draft.Sample.node "call") []]

/-- Its graph. -/
def straightGraph : Graph where
  blocks := [block "cfg_1" "entry" .entry "root", block "cfg_0" "" .statement "root-0"]
  edges := [⟨"cfg_1", "cfg_0", none⟩]

/-- A layout of its graph. -/
def placedStraight : List (Placed Text Rat) :=
  [⟨(block "cfg_1" "entry" .entry "root").box, 0, 0, 100, 54, 0, 0⟩,
    ⟨(block "cfg_0" "" .statement "root-0").box, 0, 110, 100, 54, 0, 1⟩]

/-- What is built of one statement. -/
theorem build_straight :
    (builder.build straight).2 =
      .ok (straightGraph, [.entryPromoted "cfg_1" "cfg_0", .graphBuilt 2 1]) := by
  decide +kernel

/-- The layout of that graph. -/
theorem place_straight :
    place Layout.Sample.flat Style.default straightGraph.diagram = .ok placedStraight := by
  cbv

end Sample

/-- In the graph of the sample, which has a layout, what goes back is the edge
out of the body of the loop. The graph of one statement has no cycle. -/
theorem order_of_build_sample :
    (Sample.builder.build Draft.Sample.program).2 =
        .ok (Sample.graph, [.entryPromoted "cfg_3" "cfg_0", .graphBuilt 4 4]) ∧
      GoesBack Sample.builder Draft.Sample.program Sample.graph ⟨"cfg_1", "cfg_0", some "next"⟩ ∧
      (∃ placed : List (Placed Text Rat),
        place Layout.Sample.flat Style.default Sample.graph.diagram = .ok placed) ∧
      (Sample.builder.build Sample.straight).2 =
        .ok (Sample.straightGraph, [.entryPromoted "cfg_1" "cfg_0", .graphBuilt 2 1]) ∧
      Sample.straightGraph.diagram.Acyclic ∧
      place Layout.Sample.flat Style.default Sample.straightGraph.diagram =
        .ok Sample.placedStraight ∧
      backEdges Sample.straightGraph.diagram.arrows Sample.placedStraight = .ok [] := by
  obtain ⟨_, hedges, _, hplaced⟩ := order_of_build Sample.build_program
  have hmeasured : Measured Layout.Sample.flat Style.default Sample.graph.diagram :=
    fun _ _ => ⟨⟨_, rfl⟩, fun _ _ => ⟨_, rfl⟩⟩
  obtain ⟨_, _, hstraight, _⟩ := order_of_build Sample.build_straight
  -- The header is listed in front of the body, so the edge to it is the one that goes back.
  have hback : ¬Sample.graph.rank "cfg_1" < Sample.graph.rank "cfg_0" := by decide +kernel
  have hloop : ∀ s ∈ Sample.straight.subtrees,
      Sample.builder.table.category? s.label.kind ≠ some .loop := by
    intro s hs
    have hkind : Sample.builder.table.category? s.label.kind = none := by
      fin_cases hs <;> decide +kernel
    simp [hkind]
  obtain ⟨hacyclic, hfound⟩ := hstraight hloop
  exact ⟨Sample.build_program,
    (hedges _ (List.mem_cons_of_mem _ List.mem_cons_self)).2.resolve_left hback,
    hplaced Rat Layout.Sample.flat Style.default hmeasured, Sample.build_straight, hacyclic,
    Sample.place_straight, hfound Rat Layout.Sample.flat _ _ Sample.place_straight⟩

end Builder

end Flowchart
