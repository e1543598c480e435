import Flowchart.Proofs.Builder.Outgoing
import Flowchart.Proofs.Outline.Reaches

/-!
# `Flowchart.Proofs.Builder.Reachable`: no flow is lost

Where control cannot go on from a block of a graph, it stands in front of a
terminator that was meant to end it, or it leaves the whole tree there: the
block is an exit of what was drafted for the root. No construct drops an exit
that it should have passed on.

Where no node is a terminator, control gets from the first block of the graph
to every block of it, and from every block to an exit of the root.

* `Graph.Leads`: some edge of a graph leads from one block to another;
* `RootExit`: control leaves the root from a block;
* `flow_of_build`: no flow is lost.
-/

set_option autoImplicit false

namespace Flowchart

/-- Some edge of a graph leads from one block to another. -/
def Graph.Leads (graph : Graph) (source target : Text) : Prop :=
  ∃ edge ∈ graph.edges, edge.source = source ∧ edge.target = target

namespace Draft

open Outline

variable {table : KindTable} {tree : MarkedTree}

/-- There is an outline of the root if a block is listed. -/
theorem exists_whole_of_mem_listing {n : Nat} (h : n ∈ listing table tree) :
    ∃ whole, outline table (rootRequest table tree) = some whole := by
  refine Option.ne_none_iff_exists'.1 fun hnone => ?_
  have hnext : (draft table tree).draft.next = 0 := by
    rw [next_draft, hnone]
    rfl
  by_cases hentry : NeedsEntry table tree
  · exact Nat.ne_of_gt hentry.next_pos hnext
  · rw [listing_of_not_needsEntry hentry, hnext] at h
    cases h

/-- Where the outline of the root has no terminators, every block that is
listed is reached from the first one, and from every block an exit of the root
is reached. -/
theorem reaches_listing {whole : Outline}
    (hwhole : outline table (rootRequest table tree) = some whole)
    (hterminator : ∀ p, Within (0, whole) p → p.2.category? ≠ some .terminator)
    {first n : Nat} {rest : List Nat} (hlisting : listing table tree = first :: rest)
    (hn : n ∈ listing table tree) :
    Reaches (draft table tree).edges first n ∧
      ∃ e ∈ whole.exits 0, Reaches (draft table tree).edges n e := by
  have hconnected : Connected (draft table tree).edges (0, whole) := by
    refine (connected whole 0 hterminator).mono ?_
    rintro m n ⟨edge, hedge, hends⟩
    exact ⟨edge, mem_edges_draft.2 (.inl (by rwa [hwhole])), hends⟩
  have hcovers : ∀ n < (draft table tree).draft.next, whole.Covers 0 n := by
    intro n hn
    rw [next_draft, hwhole, sizeIfAny] at hn
    unfold Covers
    omega
  by_cases hentry : NeedsEntry table tree
  -- An entry of its own leads to the first block of the outline.
  · have hjoined : Joined (draft table tree).edges (draft table tree).draft.next 0 :=
      ⟨_, mem_edges_draft.2 (.inr ⟨hentry, rfl⟩), rfl, rfl⟩
    rw [listing_of_needsEntry hentry] at hlisting hn
    obtain ⟨rfl, _⟩ := List.cons.inj hlisting
    rcases List.mem_cons.1 hn with rfl | hn
    · obtain ⟨e, he, hreaches⟩ := hconnected.left 0 (whole.covers_first 0)
      exact ⟨.refl, e, he, hreaches.head hjoined⟩
    · have hn := hcovers n (List.mem_range.1 hn)
      exact ⟨(hconnected.entered n hn).head hjoined, hconnected.left n hn⟩
  · rw [listing_of_not_needsEntry hentry] at hlisting hn
    have hfirst : first = 0 := by
      have hhead := congrArg List.head? hlisting
      rw [List.head?_range] at hhead
      split at hhead <;> cases hhead
      rfl
    have hn := hcovers n (List.mem_range.1 hn)
    exact ⟨hfirst ▸ hconnected.entered n hn, hconnected.left n hn⟩

end Draft

namespace Builder

open Draft Outline

/-- Control leaves what is drafted for the root of a tree from a block. -/
def RootExit (builder : Builder) (tree : SyntaxTree) (id : Text) : Prop :=
  ∃ fragment n,
    (runRequest builder.table (rootRequest builder.table (builder.table.mark tree))
      (opening (builder.table.mark tree))).1 = some fragment ∧
    n ∈ fragment.exits ∧ id = idOf n

section

variable {builder : Builder} {tree : SyntaxTree} {graph : Graph} {notices : List Notice}
  {block : Block} {whole : Outline}

/-- The exits of the outline of a tree are those of the fragment of its
root. -/
theorem rootExit_of_mem_exits
    (hwhole : outline builder.table (rootRequest builder.table (builder.table.mark tree)) =
      some whole) {n : Nat} (hn : n ∈ whole.exits 0) : RootExit builder tree (idOf n) := by
  refine ⟨whole.fragment 0, n, ?_, hn, rfl⟩
  have hserved := served_eq builder.table (builder.table.mark tree)
  rw [hwhole] at hserved
  rw [runRequest_eq_serve]
  exact hserved

/-- Out of a block that leads nowhere control leaves the tree, unless it is a
terminator. -/
theorem DrawnFor.nowhere {drawn : Draft.Block} {p : Nat × Outline} {led : List Draft.Edge}
    (h : DrawnFor builder tree graph block whole drawn p led)
    (hnowhere : graph.outgoing block.id = []) :
    block.kind = .terminator ∨ RootExit builder tree block.id := by
  rw [h.outgoing, List.map_eq_nil_iff, List.append_eq_nil_iff] at hnowhere
  obtain ⟨hdrawn, hled⟩ := hnowhere
  rw [h.writes.kind, h.writes.id]
  -- What its construct hands on, nothing around the construct has taken.
  rcases nowhere_cases h.stands.bare hdrawn with hkind | hexit
  · exact .inl hkind
  · exact .inr (rootExit_of_mem_exits h.root (h.stands.continues.mem_exits hled hexit))

/-! ### Without terminators -/

/-- Along the edges of a graph that was built, blocks are reached as they are
along those of its draft. -/
theorem reaches_of_build (h : (builder.build tree).2 = .ok (graph, notices)) {m n : Nat}
    (hreaches : Reaches (draft builder.table (builder.table.mark tree)).edges m n) :
    Relation.ReflTransGen graph.Leads (idOf m) (idOf n) := by
  refine Relation.ReflTransGen.lift idOf ?_ _ _ hreaches
  rintro _ _ ⟨edge, hedge, rfl, rfl⟩
  refine ⟨edge.write builder.source, ?_, rfl, rfl⟩
  rw [edges_eq_of_build h]
  exact List.mem_map_of_mem hedge

/-- Where no node is a terminator, nothing in the outline of a tree is one. -/
theorem not_terminator
    (hterminator : ∀ s ∈ tree.subtrees, builder.table.category? s.label.kind ≠ some .terminator)
    (hwhole : outline builder.table (rootRequest builder.table (builder.table.mark tree)) =
      some whole) {p : Nat × Outline} (hp : Within (0, whole) p) :
    p.2.category? ≠ some .terminator := by
  intro hcategory
  obtain ⟨q, _, hserved, _, hkind, _, _⟩ := exists_served hwhole hp hcategory
  obtain ⟨s, hs, hlabel⟩ := hserved.exists_subtree
  exact hterminator s hs (hlabel ▸ hkind)

/-- Where no node is a terminator, every block of a graph that was built is
reached from the first one, and from every block control gets out of the
tree. -/
theorem connected_of_build (h : (builder.build tree).2 = .ok (graph, notices))
    (hterminator : ∀ s ∈ tree.subtrees, builder.table.category? s.label.kind ≠ some .terminator)
    (hblock : block ∈ graph.blocks) :
    (∃ first rest, graph.blocks = first :: rest ∧
      Relation.ReflTransGen graph.Leads first.id block.id) ∧
    ∃ id, RootExit builder tree id ∧ Relation.ReflTransGen graph.Leads block.id id := by
  have hids := ids_of_build h
  have hmem : block.id ∈ graph.ids := List.mem_map_of_mem hblock
  rw [hids] at hmem
  obtain ⟨n, hn, hid⟩ := List.mem_map.1 hmem
  obtain ⟨whole, hwhole⟩ := exists_whole_of_mem_listing hn
  obtain ⟨first, rest, hblocks⟩ := List.exists_cons_of_ne_nil (List.ne_nil_of_mem hblock)
  -- The first block has the id of the number that is listed first.
  rw [Graph.ids, hblocks, List.map_cons] at hids
  obtain ⟨m, others, hlisting, hfirst, _⟩ := List.map_eq_cons_iff.1 hids.symm
  obtain ⟨hentered, e, he, hleft⟩ :=
    reaches_listing hwhole (fun p hp => not_terminator hterminator hwhole hp) hlisting hn
  rw [← hid]
  refine ⟨⟨first, rest, hblocks, ?_⟩, idOf e, rootExit_of_mem_exits hwhole he, ?_⟩
  · rw [← hfirst]
    exact reaches_of_build h hentered
  · exact reaches_of_build h hleft

/-- In a graph that was built, a block from which nothing leads on is a
terminator or an exit of the root. Where no node of the tree is a terminator,
every block is reached from the first one, and from every block an exit of the
root is reached. -/
theorem flow_of_build (h : (builder.build tree).2 = .ok (graph, notices)) :
    (∀ block ∈ graph.blocks, graph.outgoing block.id = [] →
      block.kind = .terminator ∨ RootExit builder tree block.id) ∧
    ((∀ s ∈ tree.subtrees, builder.table.category? s.label.kind ≠ some .terminator) →
      ∀ block ∈ graph.blocks,
        (∃ first rest, graph.blocks = first :: rest ∧
          Relation.ReflTransGen graph.Leads first.id block.id) ∧
        ∃ id, RootExit builder tree id ∧ Relation.ReflTransGen graph.Leads block.id id) := by
  refine ⟨fun block hblock hnowhere => ?_, fun hterminator block hblock => ?_⟩
  · rcases drawnFor_of_build h hblock with ⟨hentry, _, hid⟩ | ⟨whole, drawn, p, led, hdrawn⟩
    -- An entry of its own leads to block 0, so it is no block that control ends at.
    · have houtgoing := outgoing_of_build h
        (draft builder.table (builder.table.mark tree)).draft.next
      rw [← hid, hnowhere, outgoing_entry hentry] at houtgoing
      cases houtgoing
    · exact hdrawn.nowhere hnowhere
  · exact connected_of_build h hterminator hblock

end

/-- In the graph of the sample, which has no terminators, nothing leads on from
the last statement. So it is an exit of the root, and it is reached from the
entry. -/
theorem flow_of_build_sample :
    (Sample.builder.build Draft.Sample.program).2 =
        .ok (Sample.graph, [.entryPromoted "cfg_3" "cfg_0", .graphBuilt 4 4]) ∧
      (∀ s ∈ Draft.Sample.program.subtrees,
        Sample.builder.table.category? s.label.kind ≠ some .terminator) ∧
      Sample.graph.outgoing "cfg_2" = [] ∧
      RootExit Sample.builder Draft.Sample.program "cfg_2" ∧
      (∃ first rest, Sample.graph.blocks = first :: rest ∧
        Relation.ReflTransGen Sample.graph.Leads first.id "cfg_2") := by
  obtain ⟨hnowhere, hconnected⟩ := flow_of_build Sample.build_program
  have hterminator : ∀ s ∈ Draft.Sample.program.subtrees,
      Sample.builder.table.category? s.label.kind ≠ some .terminator := by
    decide +kernel
  have hlast : Sample.block "cfg_2" "" .statement "root-1" ∈ Sample.graph.blocks := by
    simp [Sample.graph]
  have houtgoing : Sample.graph.outgoing "cfg_2" = [] := by cbv
  exact ⟨Sample.build_program, hterminator, houtgoing,
    (hnowhere _ hlast houtgoing).resolve_left (by decide), (hconnected hterminator _ hlast).1⟩

end Builder

end Flowchart
