import Flowchart.Proofs.Builder.BackEdges
import Flowchart.Proofs.Graph.Faces
import Flowchart.Proofs.Outline.Outgoing

/-!
# `Flowchart.Proofs.Builder.Simple`: a graph that is built is simple

No edge that a builder draws leads back to the block that it starts at, and
no two of them join the same blocks, whatever their labels are. That holds of
the edges as they are collected, so nothing is lost when those that repeat
are dropped.

The key by which a layout names a back edge does not tell its label. It is
only sound because of this: an edge has the key of a back edge if and only if
it goes back itself.

* `Simple`: ends of edges that no two edges share, none from a block to itself;
* `simple_draft`: the edges of a draft;
* `edges_eq_of_build`: the edges of a graph are all that were collected;
* `simple_of_build`: what follows for a graph that was built and its layouts.
-/

set_option autoImplicit false

namespace Flowchart

/-! ### Ends of edges -/

/-- Where an edge of a draft starts, and where it leads to. -/
def Draft.Edge.ends (edge : Draft.Edge) : Nat × Nat :=
  (edge.source, edge.target)

/-- Where an edge starts, and where it leads to. -/
def Edge.ends (edge : Edge) : Text × Text :=
  (edge.source, edge.target)

/-- Where an edge of a sketch starts, and where it leads to. -/
def Sketch.Edge.ends (edge : Sketch.Edge) : Json × Json :=
  (edge.source, edge.target)

/-- Between blocks there is one edge at most, and from a block to itself there
is none. -/
structure Simple {ι : Type} (ends : List (ι × ι)) : Prop where
  nodup : ends.Nodup
  apart : ∀ e ∈ ends, e.1 ≠ e.2

namespace Simple

variable {ι κ : Type} {ends ends' : List (ι × ι)}

/-- Some of simple edges are simple. -/
theorem of_sublist (h : Simple ends) (hsublist : ends'.Sublist ends) : Simple ends' :=
  ⟨h.nodup.sublist hsublist, fun e he => h.apart e (hsublist.subset he)⟩

/-- Blocks may be renamed, if different ones keep different names. -/
theorem map {f : ι → κ} (hf : ∀ i j, f i = f j → i = j) (h : Simple ends) :
    Simple (ends.map (Prod.map f f)) := by
  refine ⟨h.nodup.map fun e e' heq => ?_, fun e he heq => ?_⟩
  · obtain ⟨hsource, htarget⟩ := Prod.mk.inj heq
    exact Prod.ext (hf _ _ hsource) (hf _ _ htarget)
  · obtain ⟨e', he', rfl⟩ := List.mem_map.1 he
    exact h.apart e' he' (hf _ _ heq)

end Simple

/-- Items are told apart by a face that tells what else they are told apart
by. -/
theorem nodup_face {ε φ ψ : Type} {face : ε → φ} {other : ε → ψ} {items : List ε}
    (h : (items.map other).Nodup) (hface : ∀ a b, face a = face b → other a = other b) :
    (items.map face).Nodup :=
  List.pairwise_map.2 ((List.pairwise_map.1 h).imp fun hne heq => hne (hface _ _ heq))

namespace Draft

/-- Edges that lead to different blocks wherever they start at the same one do
not share their ends. -/
theorem nodup_ends {edges : List Edge} (h : ∀ n, ((outgoing edges n).map Edge.target).Nodup) :
    (edges.map Edge.ends).Nodup := by
  induction edges with
  | nil => exact List.nodup_nil
  | cons edge edges ih =>
    refine List.nodup_cons.2 ⟨fun hmem => ?_, ih fun n => ?_⟩
    · obtain ⟨other, hother, heq⟩ := List.mem_map.1 hmem
      obtain ⟨hsource, htarget⟩ := Prod.mk.inj heq
      have htargets := h edge.source
      rw [outgoing_cons_self, List.map_cons, List.nodup_cons, ← htarget] at htargets
      exact htargets.1 (List.mem_map_of_mem (mem_outgoing.2 ⟨hother, hsource⟩))
    · exact (h n).sublist (((List.sublist_cons_self edge edges).filter _).map _)

/-- The edges of an outline are simple. -/
theorem simple_edges (outline : Outline) (a : Nat) :
    Simple ((outline.edges a).map Edge.ends) := by
  refine ⟨nodup_ends (outline.nodup_targets a), fun e he => ?_⟩
  obtain ⟨edge, hedge, rfl⟩ := List.mem_map.1 he
  exact Outline.ne_of_joined ⟨edge, hedge, rfl, rfl⟩

/-- The edges of the draft of a tree are simple. -/
theorem simple_draft (table : KindTable) (tree : MarkedTree) :
    Simple ((draft table tree).edges.map Edge.ends) := by
  have hdrafted : Simple ((draft table tree).draft.edges.map Edge.ends) := by
    rw [edges_draft]
    cases outline table (rootRequest table tree) with
    | none => exact ⟨List.nodup_nil, fun _ h => nomatch h⟩
    | some whole => exact simple_edges whole 0
  by_cases hentry : NeedsEntry table tree
  -- The edge out of an entry of its own starts where no other edge does.
  · rw [edges_of_needsEntry hentry, List.map_append]
    constructor
    · refine List.nodup_append.2 ⟨hdrafted.nodup, List.pairwise_singleton _ _, ?_⟩
      intro e he e' he' heq
      obtain ⟨edge, hedge, rfl⟩ := List.mem_map.1 he
      rw [List.map_singleton, List.mem_singleton] at he'
      rw [he'] at heq
      exact absurd (Prod.mk.inj heq).1 (Nat.ne_of_lt (ends_lt_next hedge).1)
    · intro e he
      rcases List.mem_append.1 he with he | he
      · exact hdrafted.apart e he
      · rw [List.map_singleton, List.mem_singleton] at he
        rw [he]
        exact Nat.ne_of_gt hentry.next_pos
  · rw [edges_of_not_needsEntry hentry]
    exact hdrafted

end Draft

namespace Builder

open Arithmetic Draft Layout

section

variable {builder : Builder} {tree : SyntaxTree} {graph : Graph} {notices : List Notice}

/-! ### Collected edges -/

/-- Edges that are written are as simple as those that were drawn. -/
theorem simple_write {drawn : List Draft.Edge} (h : Simple (drawn.map Draft.Edge.ends))
    (source : Source) : Simple ((drawn.map (Draft.Edge.write source)).map Edge.ends) := by
  have hends : (drawn.map (Draft.Edge.write source)).map Edge.ends =
      (drawn.map Draft.Edge.ends).map (Prod.map idOf idOf) := by
    simp only [List.map_map]
    rfl
  rw [hends]
  exact h.map fun _ _ => idOf_inj.1

/-- The sketches of edges are as simple as the edges. -/
theorem simple_sketch {edges : List Edge} (h : Simple (edges.map Edge.ends)) :
    Simple ((edges.map Edge.sketch).map Sketch.Edge.ends) := by
  have hends : (edges.map Edge.sketch).map Sketch.Edge.ends =
      (edges.map Edge.ends).map (Prod.map Json.string Json.string) := by
    simp only [List.map_map]
    rfl
  rw [hends]
  exact h.map fun _ _ => Json.string.inj

/-- The edges that are collected while a tree is built are those of its draft,
or the first of them where a fault ends the build. -/
theorem exists_collected (builder : Builder) (tree : SyntaxTree) :
    ∃ drawn, drawn <+: (draft builder.table (builder.table.mark tree)).edges ∧
      (builder.build tree).1.edges =
        (drawn.map (Draft.Edge.write builder.source)).map Edge.sketch := by
  obtain ⟨written, ⟨_, kept, hkept, hwrote, hbuild⟩ | ⟨_, hwrote, hbuild⟩⟩ :=
    builder.build_cases tree <;> rw [hbuild]
  · refine ⟨kept.filterMap Event.edge?, (hkept.filterMap _).trans (List.prefix_append _ _), ?_⟩
    have hedges := hwrote.edges
    simp only [Written.nothing, List.nil_append] at hedges
    simp only [holding, Graph.sketch, Written.graph, hedges]
  · refine ⟨_, List.prefix_rfl, ?_⟩
    simp only [holding, Graph.sketch, (writes_promoted hwrote).2]

/-- The edges that are collected while a tree is built are simple. -/
theorem exists_simple (builder : Builder) (tree : SyntaxTree) :
    ∃ edges : List Edge, Simple (edges.map Edge.ends) ∧
      (builder.build tree).1.edges = edges.map Edge.sketch := by
  obtain ⟨drawn, hfront, hedges⟩ := builder.exists_collected tree
  have hdraft := simple_draft builder.table (builder.table.mark tree)
  have hdrawn : Simple (drawn.map Draft.Edge.ends) := hdraft.of_sublist (hfront.sublist.map _)
  exact ⟨_, simple_write hdrawn builder.source, hedges⟩

/-- Edges that do not share their ends are all kept when those that repeat are
dropped from their sketches. -/
theorem distinct_sketch {edges : List Edge} (h : (edges.map Edge.ends).Nodup) :
    Sketch.Edge.distinct (edges.map Edge.sketch) = .ok (edges.map Edge.sketch) := by
  have hfaces : (edges.map Edge.face).Nodup := by
    refine nodup_face h fun edge other heq => ?_
    obtain ⟨hsource, hrest⟩ := Prod.mk.inj heq
    exact Prod.ext hsource (Prod.mk.inj hrest).1
  rw [Edge.distinct_sketch, Edge.distinct, distinctBy_eq_self hfaces]

/-! ### Graphs that were built -/

/-- The edges of a graph that was built are all that were drawn. -/
theorem edges_eq_of_build (h : (builder.build tree).2 = .ok (graph, notices)) :
    graph.edges = (draft builder.table (builder.table.mark tree)).edges.map
      (Draft.Edge.write builder.source) := by
  rw [edges_of_build h, Edge.distinct, distinctBy_eq_self]
  rw [List.map_map]
  refine nodup_face (simple_draft builder.table (builder.table.mark tree)).nodup ?_
  intro edge other heq
  obtain ⟨hsource, hrest⟩ := Prod.mk.inj heq
  exact Prod.ext (idOf_inj.1 hsource) (idOf_inj.1 (Prod.mk.inj hrest).1)

/-- The edges that a builder has collected when it has built a graph are those
of the graph. -/
theorem collected_eq_of_build (h : (builder.build tree).2 = .ok (graph, notices)) :
    (builder.build tree).1.edges = graph.edges.map Edge.sketch := by
  rw [edges_eq_of_build h]
  obtain ⟨written, ⟨_, _, _, _, hbuild⟩ | ⟨_, hwrote, hbuild⟩⟩ := builder.build_cases tree <;>
    rw [hbuild] at h ⊢ <;> cases h
  simp only [holding, Graph.sketch, (writes_promoted hwrote).2]

/-- Different edges of a graph that was built have different keys. -/
theorem nodup_keys_of_build (h : (builder.build tree).2 = .ok (graph, notices)) :
    (graph.edges.map Edge.key).Nodup := by
  rw [edges_eq_of_build h, List.map_map]
  refine nodup_face (simple_draft builder.table (builder.table.mark tree)).nodup ?_
  intro edge other heq
  obtain ⟨hsource, htarget⟩ := key_inj heq
  exact Prod.ext hsource htarget

/-- The boxes of a graph have the ids of its blocks. -/
theorem ids_diagram (graph : Graph) : graph.diagram.ids = graph.ids := by
  simp only [Diagram.ids, Graph.diagram, Graph.ids, List.map_map]
  rfl

/-- In a layout of a graph that was built, an edge has the key of a back edge
if and only if its own target is in the row of its source or above. -/
theorem mem_backEdges_of_build (h : (builder.build tree).2 = .ok (graph, notices)) {α : Type}
    [Arithmetic α] [OrdersWholes α] {measure : Measure α} {style : Style α}
    {placed : List (Placed Text α)} (hplace : place measure style graph.diagram = .ok placed) :
    ∃ found, backEdges graph.diagram.arrows placed = .ok found ∧ ∀ edge ∈ graph.edges,
      ∃ source target, rowOf? placed edge.source = some source ∧
        rowOf? placed edge.target = some target ∧
        (edge.key ∈ found ↔ holds .lessOrEqual target source = .ok true) := by
  obtain ⟨found, hfound, hkeys⟩ := exists_backEdges hplace
  refine ⟨found, hfound, fun edge hedge => ?_⟩
  -- Both ends have a row, since an edge joins blocks of the graph.
  obtain ⟨hsource, htarget⟩ := (forward_or_goesBack h hedge).1
  have hrow {id : Text} (hid : id ∈ graph.ids) :
      rowOf? placed id = some (whole (layerOf (layers graph.diagram) id) : α) := by
    rw [rowOf?_place hplace, ids_diagram, if_pos hid]
  refine ⟨_, _, hrow hsource, hrow htarget, ?_⟩
  have hback : isBackEdge placed edge.arrow =
      holds .lessOrEqual (whole (layerOf (layers graph.diagram) edge.target) : α)
        (whole (layerOf (layers graph.diagram) edge.source)) := by
    simp only [isBackEdge, Edge.arrow, hrow hsource, hrow htarget]
  rw [← hback, hkeys]
  constructor
  -- No other edge has the key.
  · rintro ⟨arrow, harrow, hother, hkey⟩
    obtain ⟨other, hmem, rfl⟩ := List.mem_map.1 harrow
    rwa [List.inj_on_of_nodup_map (nodup_keys_of_build h) hedge hmem hkey.symm]
  · exact fun hback => ⟨edge.arrow, List.mem_map_of_mem hedge, hback, rfl⟩

/-- Whatever tree is built, no edge that is collected leads from a block to
itself, and no two of them join the same blocks. Nothing is lost when those
that repeat are dropped, so a graph that is built has all of them, and no two
of its edges have the same key. In each of its layouts the keys that are found
are those of the edges whose own target is in the row of their source or
above, and of no others. There is a layout wherever the texts of the graph can
be measured, over lengths that nothing refuses. -/
theorem simple_of_build (builder : Builder) (tree : SyntaxTree) :
    Simple ((builder.build tree).1.edges.map Sketch.Edge.ends) ∧
    Sketch.Edge.distinct (builder.build tree).1.edges = .ok (builder.build tree).1.edges ∧
    ∀ graph notices, (builder.build tree).2 = .ok (graph, notices) →
      (builder.build tree).1.edges = graph.edges.map Edge.sketch ∧
      (graph.edges.map Edge.key).Nodup ∧
      (∀ (α : Type) [Arithmetic α] [OrdersWholes α] (measure : Measure α) (style : Style α)
        (placed : List (Placed Text α)), place measure style graph.diagram = .ok placed →
        ∃ found, backEdges graph.diagram.arrows placed = .ok found ∧ ∀ edge ∈ graph.edges,
          ∃ source target, rowOf? placed edge.source = some source ∧
            rowOf? placed edge.target = some target ∧
            (edge.key ∈ found ↔ holds .lessOrEqual target source = .ok true)) ∧
      ∀ (α : Type) [Arithmetic α] [NeverRefuses α] (measure : Measure α) (style : Style α),
        Measured measure style graph.diagram →
          ∃ placed, place measure style graph.diagram = .ok placed := by
  obtain ⟨edges, hsimple, hcollected⟩ := builder.exists_simple tree
  refine ⟨hcollected ▸ simple_sketch hsimple, hcollected ▸ distinct_sketch hsimple.nodup, ?_⟩
  intro graph notices h
  refine ⟨collected_eq_of_build h, nodup_keys_of_build h, ?_, ?_⟩
  · exact fun α _ _ measure style placed hplace => mem_backEdges_of_build h hplace
  · exact fun α _ _ measure style hmeasured => exists_place hmeasured

end

/-- The four edges of the sample have four keys, and in its layout, which has
one back edge, that is the edge that leads up. -/
theorem simple_of_build_sample :
    (Sample.builder.build Draft.Sample.program).2 =
        .ok (Sample.graph, [.entryPromoted "cfg_3" "cfg_0", .graphBuilt 4 4]) ∧
      Sample.graph.edges.length = 4 ∧ (Sample.graph.edges.map Edge.key).Nodup ∧
      place Layout.Sample.flat Style.default Sample.graph.diagram = .ok Sample.placedGraph ∧
      rowOf? Sample.placedGraph "cfg_0" = some 2 ∧ rowOf? Sample.placedGraph "cfg_1" = some 1 ∧
      ∃ found, backEdges Sample.graph.diagram.arrows Sample.placedGraph = .ok found ∧
        ("cfg_0->cfg_1" : Text) ∈ found ∧ ("cfg_1->cfg_0" : Text) ∉ found := by
  obtain ⟨_, _, hbuilt⟩ := simple_of_build Sample.builder Draft.Sample.program
  obtain ⟨_, hkeys, hlayouts, _⟩ := hbuilt _ _ Sample.build_program
  obtain ⟨found, hfound, hedges⟩ :=
    hlayouts Rat Layout.Sample.flat Style.default Sample.placedGraph Sample.place_graph
  -- The loop stands below its body, so the edge into the body goes up.
  have hfirst : rowOf? Sample.placedGraph "cfg_0" = some 2 := by cbv
  have hsecond : rowOf? Sample.placedGraph "cfg_1" = some 1 := by cbv
  refine ⟨Sample.build_program, rfl, hkeys, Sample.place_graph, hfirst, hsecond, found, hfound,
    ?_, ?_⟩
  · obtain ⟨_, _, hsource, htarget, hfound⟩ :=
      hedges ⟨"cfg_0", "cfg_1", some "body"⟩ List.mem_cons_self
    cases hsource.symm.trans hfirst
    cases htarget.symm.trans hsecond
    exact hfound.2 (by cbv)
  · obtain ⟨_, _, hsource, htarget, hfound⟩ :=
      hedges ⟨"cfg_1", "cfg_0", some "next"⟩ (List.mem_cons_of_mem _ List.mem_cons_self)
    cases hsource.symm.trans hsecond
    cases htarget.symm.trans hfirst
    have hdown : holds .lessOrEqual (2 : Rat) 1 = .ok false := by cbv
    intro hmem
    cases hdown.symm.trans (hfound.1 hmem)

end Builder

end Flowchart
