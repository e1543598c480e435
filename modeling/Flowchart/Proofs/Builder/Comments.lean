import Flowchart.Proofs.Builder.Simple
import Flowchart.Proofs.Builder.Tokens
import Flowchart.Proofs.Outline.Comments

/-!
# `Flowchart.Proofs.Builder.Comments`: graphs and comments

Comments with nothing below them do not change the frame of a graph: its
blocks have the same ids and kinds and cover the same nodes, and its edges
join the same blocks, in the same order. Texts can change. A comment can be
taken for the condition of a branch that has none, it is named with the arm
that it stands in, and it counts among the children in a path.

The root is the exception. A root that is no construct is a chain only if it
has a named child. If all of those are comments, it is a chain with them,
which builds nothing, and without them it is a node of its own, which can be
a block. So either the root is a construct, or it keeps a named child.

* `Graph.SameFrame`: graphs that differ in texts only;
* `build_withoutComments`: the graph of a tree without its comments.
-/

set_option autoImplicit false

namespace Flowchart

/-- A block that says neither what it shows nor where it comes from. -/
def Block.withoutTexts (block : Block) : Block :=
  { block with label := [], statements := [], path := [] }

/-- Two graphs differ in texts only: their blocks have the same ids and kinds
and cover the same text, and their edges join the same blocks. -/
structure Graph.SameFrame (graph other : Graph) : Prop where
  blocks : graph.blocks.map Block.withoutTexts = other.blocks.map Block.withoutTexts
  ends : graph.edges.map Edge.ends = other.edges.map Edge.ends

namespace Draft

section

variable {table : KindTable} {t : MarkedTree}
  (hroot : table.isStructural t.kind = true ∨ (t.withoutComments table).namedChildren ≠ [])
  (hquiet : table.Quiet)

include hroot hquiet

/-- A tree without its comments gets an entry of its own if the tree does. -/
theorem promoted_withoutComments :
    (draft table t).promoted = (draft table (t.withoutComments table)).promoted :=
  promoted_congr (mode_withoutComments hroot) (kinds_withoutComments hroot hquiet)
    (by rw [MarkedTree.label_withoutComments])

/-- All blocks differ in texts only, an entry of its own among them. -/
theorem allBlocks_withoutComments :
    (draft table t).blocks.map Block.withoutTexts =
      (draft table (t.withoutComments table)).blocks.map Block.withoutTexts := by
  rw [Result.blocks, Result.blocks, List.map_append, List.map_append, Result.entry?,
    Result.entry?, promoted_withoutComments hroot hquiet, next_withoutComments hroot hquiet,
    blocks_withoutComments hroot hquiet]

/-- All edges join the same blocks. -/
theorem ends_withoutComments :
    (draft table t).edges.map Edge.ends =
      (draft table (t.withoutComments table)).edges.map Edge.ends := by
  have hflow : Edge.ends ∘ Edge.withoutFlow = Edge.ends := rfl
  have hends := congrArg (List.map Edge.ends) (edges_withoutComments hroot hquiet)
  rw [List.map_map, List.map_map, hflow] at hends
  rw [Result.edges, Result.edges, List.map_append, List.map_append, Result.entryEdge?,
    Result.entryEdge?, promoted_withoutComments hroot hquiet, next_withoutComments hroot hquiet,
    hends]

end

/-- What is left of a block without its texts when it is written. -/
def Block.frame (block : Block) : Flowchart.Block where
  id := idOf block.number
  label := []
  statements := []
  start := block.node.start
  stop := block.node.stop
  startPosition := block.node.startPosition
  stopPosition := block.node.stopPosition
  kind := block.kind
  path := []

/-- Texts are all that writing adds to a block. -/
theorem Block.Writes.frame {drawn : Block} {made : Flowchart.Block} (h : drawn.Writes made) :
    made.withoutTexts = drawn.withoutTexts.frame := by
  rw [Flowchart.Block.withoutTexts, h.id, h.kind, h.start, h.stop, h.startPosition,
    h.stopPosition]
  rfl

end Draft

namespace Builder

variable {builder : Builder} {tree other : SyntaxTree} {graph graph' : Graph}
  {notices notices' : List Notice}

/-- Drafts that differ in texts only become graphs that do. -/
theorem sameFrame_of_build (h : (builder.build tree).2 = .ok (graph, notices))
    (h' : (builder.build other).2 = .ok (graph', notices'))
    (hblocks : (Draft.draft builder.table (builder.table.mark tree)).blocks.map
        Draft.Block.withoutTexts =
      (Draft.draft builder.table (builder.table.mark other)).blocks.map Draft.Block.withoutTexts)
    (hends : (Draft.draft builder.table (builder.table.mark tree)).edges.map Draft.Edge.ends =
      (Draft.draft builder.table (builder.table.mark other)).edges.map Draft.Edge.ends) :
    graph.SameFrame graph' := by
  have hframes := congrArg (List.map Draft.Block.frame) hblocks
  have hnames := congrArg (List.map (Prod.map Draft.idOf Draft.idOf)) hends
  rw [List.map_map, List.map_map] at hframes hnames
  -- What is drafted is written block by block and edge by edge.
  constructor
  · rw [Draft.map_of_writes Draft.Block.Writes.frame (blocks_of_build h),
      Draft.map_of_writes Draft.Block.Writes.frame (blocks_of_build h')]
    exact hframes
  · rw [edges_eq_of_build h, edges_eq_of_build h', List.map_map, List.map_map]
    exact hnames

/-- Comments do not change the frame of a graph, if the root is a construct or
keeps a named child. Where all kinds are texts and the limit is a whole number,
both graphs are built. -/
theorem build_withoutComments (builder : Builder) (tree : SyntaxTree)
    (hquiet : builder.table.Quiet)
    (hroot : builder.table.isStructural tree.kind = true ∨
      (tree.withoutComments builder.table).namedChildren ≠ []) :
    (∀ n, builder.limit = .int n → tree.KindsNamed → ∃ graph notices other notices',
      (builder.build tree).2 = .ok (graph, notices) ∧
      (builder.build (tree.withoutComments builder.table)).2 = .ok (other, notices')) ∧
    ∀ graph notices other notices',
      (builder.build tree).2 = .ok (graph, notices) →
      (builder.build (tree.withoutComments builder.table)).2 = .ok (other, notices') →
      graph.SameFrame other := by
  constructor
  · intro n hlimit hnamed
    obtain ⟨notices, hbuild⟩ := builder.build_of_named hlimit hnamed
    obtain ⟨notices', hbuild'⟩ := builder.build_of_named hlimit hnamed.withoutComments
    exact ⟨_, notices, _, notices', hbuild, hbuild'⟩
  · intro graph notices other notices' hbuild hbuild'
    -- The condition on the root, said of its marks.
    have hmarked : builder.table.isStructural (builder.table.mark tree).kind = true ∨
        ((builder.table.mark tree).withoutComments builder.table).namedChildren ≠ [] := by
      rw [← KindTable.mark_withoutComments hquiet, KindTable.namedChildren_mark, ne_eq,
        List.map_eq_nil_iff, MarkedTree.kind, KindTable.kind_mark]
      exact hroot
    refine sameFrame_of_build hbuild hbuild' ?_ ?_ <;> rw [KindTable.mark_withoutComments hquiet]
    · exact Draft.allBlocks_withoutComments hmarked hquiet
    · exact Draft.ends_withoutComments hmarked hquiet

namespace Sample

/-- A remark. -/
def remark : SyntaxTree :=
  named "comment" []

/-- All kinds of the branch with comments are names. -/
theorem kindsNamed_remarks : (branching [remark] [remark]).KindsNamed := by
  intro s hs
  fin_cases hs <;> exact ⟨_, rfl⟩

/-- What is built of that branch. -/
theorem build_remarks :
    (known.build (branching [remark] [remark])).2 =
      .ok (branchingGraph "root-0-1", [.entryPromoted "cfg_4" "cfg_0", .graphBuilt 5 5]) := by
  decide +kernel

end Sample

/-- With remarks in front of the other part of the branch and inside it, a
path is all that changes. -/
theorem build_withoutComments_remarks :
    KindTable.default.Quiet ∧
      ((Sample.branching [Sample.remark] [Sample.remark]).withoutComments
        .default).namedChildren ≠ [] ∧
      (Sample.known.build (Sample.branching [Sample.remark] [Sample.remark])).2 =
        .ok (Sample.branchingGraph "root-0-1",
          [.entryPromoted "cfg_4" "cfg_0", .graphBuilt 5 5]) ∧
      (Sample.known.build
          ((Sample.branching [Sample.remark] [Sample.remark]).withoutComments .default)).2 =
        .ok (Sample.branchingGraph "root-0-0",
          [.entryPromoted "cfg_4" "cfg_0", .graphBuilt 5 5]) ∧
      (Sample.branchingGraph "root-0-1").SameFrame (Sample.branchingGraph "root-0-0") := by
  have hbare : (Sample.branching [Sample.remark] [Sample.remark]).withoutComments .default =
      Sample.branching [] [] := by
    rfl
  have hleft : ((Sample.branching [Sample.remark] [Sample.remark]).withoutComments
      .default).namedChildren ≠ [] := by
    rw [hbare]
    exact List.cons_ne_nil _ _
  obtain ⟨hbuilt, hsame⟩ := Sample.known.build_withoutComments
    (Sample.branching [Sample.remark] [Sample.remark]) KindTable.quiet_default (.inr hleft)
  obtain ⟨_, _, _, _, hbuild, hbuild'⟩ := hbuilt 40 rfl Sample.kindsNamed_remarks
  have hframe := hsame _ _ _ _ hbuild hbuild'
  rw [Sample.build_remarks] at hbuild
  rw [show Sample.known.table = .default from rfl, hbare, Sample.build_bare] at hbuild'
  cases hbuild
  cases hbuild'
  exact ⟨KindTable.quiet_default, hleft, Sample.build_remarks, by rw [hbare, Sample.build_bare],
    hframe⟩

/-- A root that is no construct and holds nothing but a remark is a chain of
nothing. Without the remark it is a block. -/
example : (Sample.known.build (Sample.named "call" [Sample.remark])).2 =
      .ok (⟨[], []⟩, [.graphBuilt 0 0]) ∧
    (Sample.known.build (Sample.named "call" [])).2 =
      .ok (⟨[Sample.block "cfg_0" "" .statement "root"], []⟩, [.graphBuilt 1 0]) := by
  decide +kernel

end Builder

end Flowchart
