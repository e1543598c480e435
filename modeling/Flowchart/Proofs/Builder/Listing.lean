import Mathlib.Data.List.Nodup
import Flowchart.Proofs.Draft.Written
import Flowchart.Proofs.Outline.Served

/-!
# `Flowchart.Proofs.Builder.Listing`: the order of the blocks of a graph

A graph that was built lists its blocks as they were numbered, from zero on.
Only an entry of its own stands elsewhere: it has the last number and comes
first. Where a block stands in the list is its rank.

* `listing`: the numbers of the blocks, in the order of the graph;
* `ends_lt_next`: the edges of a draft join its blocks;
* `idxOf_lt_idxOf`, `idxOf_entry`: who comes before whom;
* `ids_of_build`, `rank_of_build`: the ids of a graph and their ranks, by
  number.
-/

set_option autoImplicit false

namespace Flowchart

/-- The ids of the blocks of a graph, in order. -/
def Graph.ids (graph : Graph) : List Text :=
  graph.blocks.map Block.id

/-- Where the block with an id stands in a graph. -/
def Graph.rank (graph : Graph) (id : Text) : Nat :=
  graph.ids.idxOf id

namespace Draft

section

variable {table : KindTable} {tree : MarkedTree}

/-- The numbers of the blocks of the graph of a tree, in order. -/
def listing (table : KindTable) (tree : MarkedTree) : List Nat :=
  (draft table tree).blocks.map Block.number

/-- A tree that needs an entry of its own gets one in front of block 0. -/
theorem promoted_of_needsEntry (h : NeedsEntry table tree) :
    (draft table tree).promoted = some (tree.label.toNodeInfo, 0) :=
  (promoted_eq_some_iff table tree).2 ⟨h, rfl, rfl⟩

/-- A tree that needs no entry of its own gets none. -/
theorem promoted_of_not_needsEntry (h : ¬NeedsEntry table tree) :
    (draft table tree).promoted = none :=
  Option.eq_none_iff_forall_ne_some.2 fun _ hsome =>
    h ((promoted_eq_some_iff table tree).1 hsome).1

/-- Whether an entry of its own is made, and for what, depends on whether the
tree is a chain, on the kinds of the blocks that are drafted and on the
root. -/
theorem promoted_congr {other : MarkedTree}
    (hmode : (rootRequest table tree).mode = (rootRequest table other).mode)
    (hkinds : (draft table tree).draft.blocks.map Block.kind =
      (draft table other).draft.blocks.map Block.kind)
    (hroot : tree.label.toNodeInfo = other.label.toNodeInfo) :
    (draft table tree).promoted = (draft table other).promoted := by
  have hneeds : NeedsEntry table tree ↔ NeedsEntry table other := by
    rw [needsEntry_iff_kinds, needsEntry_iff_kinds, hmode, hkinds]
  by_cases h : NeedsEntry table tree
  · rw [promoted_of_needsEntry h, promoted_of_needsEntry (hneeds.1 h), hroot]
  · rw [promoted_of_not_needsEntry h, promoted_of_not_needsEntry (hneeds.not.1 h)]

/-- An entry of its own comes first, and its number is the last one. -/
theorem blocks_of_needsEntry (h : NeedsEntry table tree) :
    (draft table tree).blocks =
      ⟨(draft table tree).draft.next, .entry, tree.label.toNodeInfo, [], .fixed "entry"⟩ ::
        (draft table tree).draft.blocks := by
  rw [Result.blocks, Result.entry?, promoted_of_needsEntry h]
  rfl

/-- Without an entry of its own, the blocks are those of the draft. -/
theorem blocks_of_not_needsEntry (h : ¬NeedsEntry table tree) :
    (draft table tree).blocks = (draft table tree).draft.blocks := by
  rw [Result.blocks, Result.entry?, promoted_of_not_needsEntry h]
  rfl

/-- The edge out of an entry of its own is the last one. -/
theorem edges_of_needsEntry (h : NeedsEntry table tree) :
    (draft table tree).edges =
      (draft table tree).draft.edges ++ [⟨(draft table tree).draft.next, 0, .onward⟩] := by
  rw [Result.edges, Result.entryEdge?, promoted_of_needsEntry h]
  rfl

/-- Without an entry of its own, the edges are those of the draft. -/
theorem edges_of_not_needsEntry (h : ¬NeedsEntry table tree) :
    (draft table tree).edges = (draft table tree).draft.edges := by
  rw [Result.edges, Result.entryEdge?, promoted_of_not_needsEntry h]
  exact List.append_nil _

/-- An entry of its own is listed first, with the last number. -/
theorem listing_of_needsEntry (h : NeedsEntry table tree) :
    listing table tree =
      (draft table tree).draft.next :: List.range (draft table tree).draft.next := by
  rw [listing, blocks_of_needsEntry h, List.map_cons, numbers_draft]

/-- Without an entry of its own, blocks are listed by their numbers. -/
theorem listing_of_not_needsEntry (h : ¬NeedsEntry table tree) :
    listing table tree = List.range (draft table tree).draft.next := by
  rw [listing, blocks_of_not_needsEntry h, numbers_draft]

/-- No number is listed twice. -/
theorem nodup_listing (table : KindTable) (tree : MarkedTree) : (listing table tree).Nodup := by
  by_cases h : NeedsEntry table tree
  · rw [listing_of_needsEntry h]
    exact List.nodup_cons.2 ⟨by simp, List.nodup_range⟩
  · rw [listing_of_not_needsEntry h]
    exact List.nodup_range

/-- Every block of the draft is listed. -/
theorem mem_listing {m : Nat} (h : m < (draft table tree).draft.next) :
    m ∈ listing table tree := by
  by_cases hentry : NeedsEntry table tree
  · rw [listing_of_needsEntry hentry]
    exact List.mem_cons_of_mem _ (List.mem_range.2 h)
  · rw [listing_of_not_needsEntry hentry]
    exact List.mem_range.2 h

/-- The edges of a draft join blocks of the draft. -/
theorem ends_lt_next {edge : Edge} (h : edge ∈ (draft table tree).draft.edges) :
    edge.source < (draft table tree).draft.next ∧ edge.target < (draft table tree).draft.next := by
  rw [edges_draft] at h
  rw [next_draft]
  cases hwhole : outline table (rootRequest table tree) with
  | none =>
    rw [hwhole] at h
    cases h
  | some whole =>
    rw [hwhole] at h
    obtain ⟨hsource, htarget⟩ := Outline.covers_joined ⟨edge, h, rfl, rfl⟩
    unfold Outline.Covers at hsource htarget
    exact ⟨by simpa [Outline.sizeIfAny] using hsource.2,
      by simpa [Outline.sizeIfAny] using htarget.2⟩

/-! ### Who comes before whom -/

/-- Among the numbers from zero on, each one is at its own place. -/
theorem idxOf_range {m n : Nat} (h : m < n) : (List.range n).idxOf m = m := by
  have hidx := List.nodup_range.idxOf_getElem m (by simpa using h : m < (List.range n).length)
  rwa [List.getElem_range] at hidx

/-- What has a smaller number comes first. -/
theorem idxOf_lt_idxOf {m n : Nat} (h : m < n) (hn : n < (draft table tree).draft.next) :
    (listing table tree).idxOf m < (listing table tree).idxOf n := by
  by_cases hentry : NeedsEntry table tree
  · rw [listing_of_needsEntry hentry, List.idxOf_cons_ne _ (by omega),
      List.idxOf_cons_ne _ (by omega), idxOf_range hn, idxOf_range (Nat.lt_trans h hn)]
    omega
  · rw [listing_of_not_needsEntry hentry, idxOf_range hn, idxOf_range (Nat.lt_trans h hn)]
    exact h

/-- There is something that an entry of its own leads to. -/
theorem NeedsEntry.next_pos (h : NeedsEntry table tree) : 0 < (draft table tree).draft.next := by
  have hlength := congrArg List.length (numbers_draft table tree)
  rw [List.length_map, List.length_range] at hlength
  exact hlength ▸ List.length_pos_of_ne_nil h.drafted

/-- An entry of its own comes before the first block. -/
theorem idxOf_entry (h : NeedsEntry table tree) :
    (listing table tree).idxOf (draft table tree).draft.next < (listing table tree).idxOf 0 := by
  have hpos := h.next_pos
  rw [listing_of_needsEntry h, List.idxOf_cons_self, List.idxOf_cons_ne _ (by omega)]
  exact Nat.succ_pos _

/-- Blocks are told by their numbers, so each is found where its number is. -/
theorem idxOf_map_idOf (numbers : List Nat) (m : Nat) :
    (numbers.map idOf).idxOf (idOf m) = numbers.idxOf m := by
  induction numbers with
  | nil => rfl
  | cons n numbers ih =>
    by_cases h : n = m
    · rw [h, List.map_cons, List.idxOf_cons_self, List.idxOf_cons_self]
    · rw [List.map_cons, List.idxOf_cons_ne _ (idOf_inj.not.2 h), List.idxOf_cons_ne _ h, ih]

end

end Draft

/-! ### Graphs that were built -/

namespace Builder

open Draft

section

variable {builder : Builder} {tree : SyntaxTree} {graph : Graph} {notices : List Notice}

/-- The ids of a graph that was built. -/
theorem ids_of_build (h : (builder.build tree).2 = .ok (graph, notices)) :
    graph.ids = (listing builder.table (builder.table.mark tree)).map idOf := by
  rw [Graph.ids, ids_of_writes (blocks_of_build h), listing, List.map_map]
  rfl

/-- The rank of a block is the place of its number in the listing. -/
theorem rank_of_build (h : (builder.build tree).2 = .ok (graph, notices)) (m : Nat) :
    graph.rank (idOf m) = (listing builder.table (builder.table.mark tree)).idxOf m := by
  rw [Graph.rank, ids_of_build h, idxOf_map_idOf]

/-- No two blocks of a graph have the same id. -/
theorem nodup_ids_of_build (h : (builder.build tree).2 = .ok (graph, notices)) :
    graph.ids.Nodup := by
  rw [ids_of_build h]
  exact (nodup_listing _ _).map fun m n => idOf_inj.1

end

/-! ### The graph of the sample -/

namespace Sample

/-- A builder with nothing in it, for a source without text. -/
def builder : Builder :=
  .new ⟨.empty⟩ Draft.Sample.kinds (.int 40)

/-- A block that shows one text and covers nothing. -/
def block (id label : String) (kind : BlockKind) (path : String) : Block :=
  ⟨id, label, [label], 0, 0, ⟨0, 0⟩, ⟨0, 0⟩, kind, path⟩

/-- The graph of the program. -/
def graph : Graph where
  blocks :=
    [block "cfg_3" "entry" .entry "root", block "cfg_0" "while" .loop "root-0",
      block "cfg_1" "" .statement "root-0-0", block "cfg_2" "" .statement "root-1"]
  edges :=
    [⟨"cfg_0", "cfg_1", some "body"⟩, ⟨"cfg_1", "cfg_0", some "next"⟩, ⟨"cfg_0", "cfg_2", none⟩,
      ⟨"cfg_3", "cfg_0", none⟩]

/-- The program is built into the graph, with an entry of its own. -/
theorem build_program :
    (builder.build Draft.Sample.program).2 =
      .ok (graph, [.entryPromoted "cfg_3" "cfg_0", .graphBuilt 4 4]) := by
  decide +kernel

end Sample

end Builder

end Flowchart
