import Mathlib.Tactic.FinCases
import Flowchart.Proofs.Builder.Listing
import Flowchart.Proofs.Draft.Faultless
import Flowchart.Proofs.Outline.Tokens

/-!
# `Flowchart.Proofs.Builder.Tokens`: graphs and tokens

Where no token is taken for a part of a construct, the graph of a tree is the
graph of what is left of the tree without its tokens. Only the paths of the
blocks can differ, since tokens count among the children of a node.

Tokens that play no role are never taken for a part. A keyword can be: with
the tables for the known grammars, an `else` that stands in front of the other
part of a branch, not inside it, is taken for that part, and nothing is built
of it.

* `Graph.SameButPaths`: graphs that differ in the paths of their blocks only;
* `build_withoutTokens`: the graph of a tree without its tokens;
* `build_of_unlisted`: the same where no token plays a role.
-/

set_option autoImplicit false

namespace Flowchart

/-- A block that does not say where it comes from. -/
def Block.withoutPath (block : Block) : Block :=
  { block with path := [] }

/-- Two graphs differ in the paths of their blocks only. -/
structure Graph.SameButPaths (graph other : Graph) : Prop where
  blocks : graph.blocks.map Block.withoutPath = other.blocks.map Block.withoutPath
  edges : graph.edges = other.edges

namespace Draft

section

variable {table : KindTable} {t : SyntaxTree}

/-- A clear tree gets an entry of its own with the tokens if it gets one without
them. -/
theorem promoted_markNamed (hnamed : t.KindsNamed) (hclear : t.Clear table) :
    (draft table (table.markNamed t)).promoted = (draft table (table.mark t)).promoted :=
  promoted_congr (by rw [rootRequest_markNamed]) (kinds_markNamed hnamed hclear)
    (table.info_markNamed t)

/-- A block without its path is written as before but for the path. -/
theorem writeWithin_withoutPath (source : Source) (n : Int) (block : Block) :
    (block.withoutPath.writeWithin source n).withoutPath =
      (block.writeWithin source n).withoutPath :=
  rfl

/-- Blocks that differ in their paths only are written so. -/
theorem map_writeWithin {blocks others : List Block} (source : Source) (n : Int)
    (h : blocks.map Block.withoutPath = others.map Block.withoutPath) :
    (blocks.map (Block.writeWithin source n)).map Flowchart.Block.withoutPath =
      (others.map (Block.writeWithin source n)).map Flowchart.Block.withoutPath := by
  have hwritten := congrArg
    (List.map fun block => (Block.writeWithin source n block).withoutPath) h
  simpa only [List.map_map, Function.comp_def, writeWithin_withoutPath] using hwritten

/-- Where no token is taken for a part, the graph of a tree is that of the
tree without its tokens. -/
theorem sameButPaths_graphOf (hnamed : t.KindsNamed) (hclear : t.Clear table) (source : Source)
    (n : Int) :
    (graphOf table source n t).SameButPaths (graphOf table source n t.withoutTokens) := by
  have hpromoted := promoted_markNamed hnamed hclear
  have hnext := next_markNamed hnamed hclear
  have hblocks : (draft table (table.mark t)).blocks.map Block.withoutPath =
      (draft table (table.markNamed t)).blocks.map Block.withoutPath := by
    rw [Result.blocks, Result.blocks, List.map_append, List.map_append, Result.entry?,
      Result.entry?, hpromoted, hnext, blocks_markNamed hnamed hclear]
  have hedges : (draft table (table.mark t)).edges = (draft table (table.markNamed t)).edges := by
    rw [Result.edges, Result.edges, Result.entryEdge?, Result.entryEdge?, hpromoted, hnext,
      edges_markNamed hnamed hclear]
  exact ⟨map_writeWithin source n hblocks,
    congrArg Flowchart.Edge.distinct (congrArg (List.map (Edge.write source)) hedges)⟩

end

end Draft

namespace Builder

variable {builder : Builder} {tree : SyntaxTree}

/-- The graph of a tree in which no token is taken for a part of a construct
is built, and so is that of the tree without its tokens. They have the same
edges, and the same blocks but for their paths. -/
theorem build_withoutTokens {n : Int} (hlimit : builder.limit = .int n)
    (hnamed : tree.KindsNamed) (hclear : tree.Clear builder.table) :
    ∃ graph notices other notices',
      (builder.build tree).2 = .ok (graph, notices) ∧
      (builder.build tree.withoutTokens).2 = .ok (other, notices') ∧
      graph.SameButPaths other := by
  obtain ⟨notices, hbuild⟩ := builder.build_of_named hlimit hnamed
  obtain ⟨notices', hbuild'⟩ := builder.build_of_named hlimit hnamed.withoutTokens
  exact ⟨_, notices, _, notices', hbuild, hbuild',
    Draft.sameButPaths_graphOf hnamed hclear builder.source n⟩

namespace Sample

/-- A builder with the tables for the known grammars and nothing in it. -/
def known : Builder :=
  .new ⟨.empty⟩ .default (.int 40)

/-- A node that says no more than its kind. -/
def named (kind : Text) (children : List SyntaxTree) : SyntaxTree :=
  .node (Draft.Sample.node kind) children

/-- The keyword in front of the other part of a branch. -/
def keyword : SyntaxTree :=
  .node { Draft.Sample.node "else" with isNamed := false } []

/-- A branch with another part, in front of a statement. Tokens can stand in
front of the other part and inside it. -/
def branching (before inside : List SyntaxTree) : SyntaxTree :=
  named "program"
    [named "if_statement"
      ([named "parenthesized_expression" [],
          named "statement_block" [named "expression_statement" []]] ++
        before ++ [named "else_clause" (inside ++ [named "expression_statement" []])]),
      named "expression_statement" []]

/-- The graph of the branch, given the path to what its other part does. -/
def branchingGraph (path : String) : Graph where
  blocks :=
    [block "cfg_4" "entry" .entry "root", block "cfg_0" "if " .branch "root-0",
      block "cfg_1" "" .statement "root-0-0", block "cfg_2" "" .statement path,
      block "cfg_3" "" .statement "root-1"]
  edges :=
    [⟨"cfg_0", "cfg_1", some "true"⟩, ⟨"cfg_0", "cfg_2", some "false"⟩, ⟨"cfg_1", "cfg_3", none⟩,
      ⟨"cfg_2", "cfg_3", none⟩, ⟨"cfg_4", "cfg_0", none⟩]

/-- What is built of the branch when the keyword is taken for its other
part. -/
def lostGraph : Graph where
  blocks :=
    [block "cfg_3" "entry" .entry "root", block "cfg_0" "if " .branch "root-0",
      block "cfg_1" "" .statement "root-0-0", block "cfg_2" "" .statement "root-1"]
  edges :=
    [⟨"cfg_0", "cfg_1", some "true"⟩, ⟨"cfg_1", "cfg_2", none⟩, ⟨"cfg_3", "cfg_0", none⟩]

/-- All kinds of the branch with a keyword in its other part are names. -/
theorem kindsNamed_inside : (branching [] [keyword]).KindsNamed := by
  intro s hs
  fin_cases hs <;> exact ⟨_, rfl⟩

/-- That branch is clear. -/
theorem clear_inside : (branching [] [keyword]).Clear .default := by
  decide +kernel

/-- What is built of that branch. -/
theorem build_inside :
    (known.build (branching [] [keyword])).2 =
      .ok (branchingGraph "root-0-1", [.entryPromoted "cfg_4" "cfg_0", .graphBuilt 5 5]) := by
  decide +kernel

/-- The same is built without the keyword, but for the path of the other part.
-/
theorem build_bare :
    (known.build (branching [] [])).2 =
      .ok (branchingGraph "root-0-0", [.entryPromoted "cfg_4" "cfg_0", .graphBuilt 5 5]) := by
  decide +kernel

/-- With the keyword right below the branch, the other part is lost. -/
theorem build_before :
    (known.build (branching [keyword] [])).2 =
      .ok (lostGraph, [.entryPromoted "cfg_3" "cfg_0", .graphBuilt 4 3]) := by
  decide +kernel

end Sample

/-- With the keyword inside the other part of the branch, the graph is that of
the tree without the keyword, but for a path. -/
theorem build_withoutTokens_inside :
    (Sample.known.build (Sample.branching [] [Sample.keyword])).2 =
        .ok (Sample.branchingGraph "root-0-1",
          [.entryPromoted "cfg_4" "cfg_0", .graphBuilt 5 5]) ∧
      (Sample.known.build (Sample.branching [] [Sample.keyword]).withoutTokens).2 =
        .ok (Sample.branchingGraph "root-0-0",
          [.entryPromoted "cfg_4" "cfg_0", .graphBuilt 5 5]) ∧
      (Sample.branchingGraph "root-0-1").SameButPaths (Sample.branchingGraph "root-0-0") := by
  have hlimit : Sample.known.limit = .int 40 := rfl
  obtain ⟨graph, _, other, _, hbuild, hother, hsame⟩ :=
    build_withoutTokens hlimit Sample.kindsNamed_inside Sample.clear_inside
  have hbare : (Sample.branching [] [Sample.keyword]).withoutTokens = Sample.branching [] [] := rfl
  rw [hbare, Sample.build_bare] at hother
  rw [Sample.build_inside] at hbuild
  cases hbuild
  cases hother
  exact ⟨Sample.build_inside, by rw [hbare, Sample.build_bare], hsame⟩

/-- With the keyword in front of the other part of the branch, that part is
lost, and with it the way where the condition fails. -/
theorem build_keyword_before :
    (Sample.known.build (Sample.branching [Sample.keyword] [])).2 =
        .ok (Sample.lostGraph, [.entryPromoted "cfg_3" "cfg_0", .graphBuilt 4 3]) ∧
      (Sample.known.build (Sample.branching [Sample.keyword] []).withoutTokens).2 =
        .ok (Sample.branchingGraph "root-0-0",
          [.entryPromoted "cfg_4" "cfg_0", .graphBuilt 5 5]) ∧
      ¬Sample.lostGraph.SameButPaths (Sample.branchingGraph "root-0-0") ∧
      ∀ edge ∈ Sample.lostGraph.edges, edge.label ≠ some "false" := by
  have hbare : (Sample.branching [Sample.keyword] []).withoutTokens = Sample.branching [] [] := rfl
  refine ⟨Sample.build_before, by rw [hbare, Sample.build_bare], fun h => ?_, by decide +kernel⟩
  exact absurd (congrArg List.length h.edges) (by decide)

/-- Tokens that play no role, and hold nothing that does, make no difference to the
graph of a tree but for the paths of its blocks. -/
theorem build_of_unlisted {n : Int} (hlimit : builder.limit = .int n) (hnamed : tree.KindsNamed)
    (hunlisted : ∀ s : SyntaxTree, s ∈ tree.subtrees → s.isNamed = false →
      s.Unlisted builder.table) :
    ∃ graph notices other notices',
      (builder.build tree).2 = .ok (graph, notices) ∧
      (builder.build tree.withoutTokens).2 = .ok (other, notices') ∧
      graph.SameButPaths other := by
  have hclear := SyntaxTree.clear_of_unlisted hunlisted
  obtain ⟨notices, hbuild⟩ := builder.build_of_named hlimit hnamed
  obtain ⟨notices', hbuild'⟩ := builder.build_of_named hlimit hnamed.withoutTokens
  exact ⟨_, notices, _, notices', hbuild, hbuild',
    Draft.sameButPaths_graphOf hnamed hclear builder.source n⟩

end Builder

end Flowchart
