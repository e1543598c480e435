import Flowchart.Proofs.Builder.Labels
import Flowchart.Proofs.Draft.Paths

/-!
# `Flowchart.Proofs.Builder.Paths`: from blocks back to the tree

A block says by its path where in the tree it comes from. In a graph without
choices each path can be read as a place. Whether that is the place of the node
that the block was made for depends on what the node is inside of. For what is not
inside a branch, a loop or a function it is. For anything else the path is the
place without the numbers of the parts on the way, and whoever follows it comes to
a node further up or further to the left, or to none.

Arms of choices have steps of their own in a path, so trees with choices are left
out here.

* `origins`: the blocks of a draft, with the places they were made for;
* `Located`: what the path of a block says of its place;
* `located_of_build`: the blocks of a graph are located.
-/

set_option autoImplicit false

namespace Flowchart

open Flowchart.Tree hiding node

namespace Draft

/-- The blocks of the draft of a tree, each with the place of the node that it was
made for. An entry of its own is made for the root. -/
def origins (table : KindTable) (tree : SyntaxTree) : List (Place × Block) :=
  let result := draft table (table.mark tree)
  result.entry?.toList.map (fun entry => ([], entry)) ++ (ledgerOf table tree).made

/-- What a block has of the node at a place: it covers the node, and its path keeps
the place, but for the numbers of parts. The path leads to the node if and only if
that is inside no construct. -/
structure Located (table : KindTable) (tree : SyntaxTree) (place : Place)
    (block : Flowchart.Block) : Prop where
  covers : ∃ s, tree.at? place = some s ∧ block.start = s.label.start ∧
    block.stop = s.label.stop ∧ block.startPosition = s.label.startPosition ∧
    block.stopPosition = s.label.stopPosition
  path : readPlace? block.path = some (kept table .visit tree place)
  leads_iff : readPlace? block.path = some place ↔
    ∀ outer u, outer <+: place → outer ≠ place → tree.at? outer = some u →
      table.category? u.label.kind = none

variable {table : KindTable} {tree : SyntaxTree}

/-- A block that was written for a node, with what is kept of its place. -/
theorem located_of_writes {place : Place} {s : SyntaxTree} {drawn : Block}
    {made : Flowchart.Block} (hwrites : drawn.Writes made) (hplace : tree.at? place = some s)
    (hnode : drawn.node = s.label)
    (hpath : drawn.path = (kept table .visit tree place).map .child) :
    Located table tree place made := by
  have hread : readPlace? made.path = some (kept table .visit tree place) := by
    rw [hwrites.path, hpath, readPlace?_text]
  refine ⟨⟨s, hplace, ?_, ?_, ?_, ?_⟩, hread, ?_⟩
  · rw [hwrites.start, hnode]
  · rw [hwrites.stop, hnode]
  · rw [hwrites.startPosition, hnode]
  · rw [hwrites.stopPosition, hnode]
  · rw [hread, Option.some_inj, kept_eq_self_iff hplace]

/-- The root is no part, however it is drafted. -/
theorem kept_root (place : Place) :
    kept table (rootRequest table (table.mark tree)).mode tree place =
      kept table .visit tree place := by
  cases place with
  | nil => rfl
  | cons index place =>
    cases hmode : (rootRequest table (table.mark tree)).mode with
    | visit => rfl
    | chain =>
      have hkind : (table.mark tree).label.kind = tree.label.kind :=
        congrArg NodeInfo.kind (table.mark_label tree)
      have hcategory := ((mode_eq_chain table (table.mark tree)).1 hmode).1
      rw [hkind] at hcategory
      simp [kept, leadsIntoParts, KindTable.isStructural, hcategory]

/-- Every block of a draft was made for the node at its place, and its path is what
is kept of the place. -/
theorem exists_node_of_origins
    (hchoice : ∀ s ∈ tree.subtrees, table.category? s.label.kind ≠ some .choice) :
    ∀ origin ∈ origins table tree, ∃ s, tree.at? origin.1 = some s ∧ origin.2.node = s.label ∧
      origin.2.path = (kept table .visit tree origin.1).map .child := by
  intro origin horigin
  rcases List.mem_append.1 horigin with hentry | hmade
  · obtain ⟨entry, hmem, rfl⟩ := List.mem_map.1 hentry
    obtain ⟨⟨root, target⟩, hpromoted, rfl⟩ :=
      Option.map_eq_some_iff.1 (Option.mem_toList.1 hmem)
    obtain ⟨_, rfl, _⟩ := (promoted_eq_some_iff table _).1 hpromoted
    exact ⟨tree, rfl, table.mark_label tree, rfl⟩
  · obtain ⟨p, hreaches, htag, howns⟩ := (origin_ledgerOf table tree).1 origin hmade
    have hroot : (rootAsk table tree).tree = placedAt [] (table.mark tree) := rfl
    obtain ⟨below, u, hu, htree, hpath⟩ := hreaches.located hroot hchoice
    -- The tag of a node is its place.
    have hplace : below = origin.1 := by
      rw [← htag, htree, tag_placedAt, List.nil_append]
    subst hplace
    refine ⟨u, hu, ?_, ?_⟩
    · rw [howns.node, Ask.request, htree, plain_placedAt, table.mark_label]
    · rw [howns.path, Ask.request, hpath]
      exact congrArg (List.map Step.child) (kept_root _)

end Draft

namespace Builder

open Draft

/-- Where a tree has no choices, each block of its graph covers the node it was made
for, and its path leads to that node if and only if no node around it is a branch, a
loop or a function. -/
theorem located_of_build {builder : Builder} {tree : SyntaxTree} {graph : Graph}
    {notices : List Notice} (h : (builder.build tree).2 = .ok (graph, notices))
    (hchoice : ∀ s ∈ tree.subtrees, builder.table.category? s.label.kind ≠ some .choice) :
    List.Forall₂ (fun origin block => origin.2.Writes block ∧
        Located builder.table tree origin.1 block)
      (origins builder.table tree) graph.blocks := by
  -- The blocks with where they come from are the blocks of the draft.
  have hblocks : (origins builder.table tree).map Prod.snd =
      (draft builder.table (builder.table.mark tree)).blocks := by
    rw [origins, List.map_append, (origin_ledgerOf builder.table tree).2, List.map_map]
    exact congrArg (· ++ _) (List.map_id _)
  have hwrites := blocks_of_build h
  rw [← hblocks, List.forall₂_map_left_iff] at hwrites
  refine ((List.forall₂_and_left _ _).2 ⟨exists_node_of_origins hchoice, hwrites⟩).imp ?_
  rintro origin block ⟨⟨s, hplace, hnode, hpath⟩, hwrites⟩
  exact ⟨hwrites, located_of_writes hwrites hplace hnode hpath⟩

namespace Sample

/-- A builder for a branch around a statement, in front of another statement. -/
def nester : Builder :=
  .new ⟨"if (c) { a; }\nb;\n".toUTF8⟩ .default (.int 40)

/-- Its tree. -/
def nested : SyntaxTree :=
  covering "program" 0 17
    [covering "if_statement" 0 13
        [covering "parenthesized_expression" 3 6 [],
          covering "statement_block" 7 13 [covering "expression_statement" 9 11 []]],
      covering "expression_statement" 14 16 []]

/-- The block of the statement inside the branch. -/
def insideBlock : Block :=
  { block "cfg_1" "a;" .statement "root-0-0" with start := 9, stop := 11 }

/-- Its graph. -/
def nestedGraph : Graph where
  blocks :=
    [{ block "cfg_3" "entry" .entry "root" with stop := 17 },
      { block "cfg_0" "if (c)" .branch "root-0" with stop := 13 }, insideBlock,
      { block "cfg_2" "b;" .statement "root-1" with start := 14, stop := 16 }]
  edges :=
    [⟨"cfg_0", "cfg_1", some "true"⟩, ⟨"cfg_1", "cfg_2", none⟩, ⟨"cfg_0", "cfg_2", none⟩,
      ⟨"cfg_3", "cfg_0", none⟩]

/-- What is built of the nested statement. -/
theorem build_nested :
    (nester.build nested).2 =
      .ok (nestedGraph, [.entryPromoted "cfg_3" "cfg_0", .graphBuilt 4 4]) := by
  decide +kernel

/-- There are no choices in it. -/
theorem choiceless_nested :
    ∀ s ∈ nested.subtrees, KindTable.default.category? s.label.kind ≠ some .choice := by
  decide +kernel

end Sample

/-- In a tree with a nested statement, each block has the path that is kept of
its place. -/
theorem located_of_build_nested :
    (Sample.nester.build Sample.nested).2 =
        .ok (Sample.nestedGraph, [.entryPromoted "cfg_3" "cfg_0", .graphBuilt 4 4]) ∧
      (∀ s ∈ Sample.nested.subtrees,
        KindTable.default.category? s.label.kind ≠ some .choice) ∧
      List.Forall₂ (fun origin block => origin.2.Writes block ∧
          Located .default Sample.nested origin.1 block)
        (origins .default Sample.nested) Sample.nestedGraph.blocks :=
  ⟨Sample.build_nested, Sample.choiceless_nested,
    located_of_build Sample.build_nested Sample.choiceless_nested⟩

/-- The path of the statement inside the branch of the sample leads to the condition
of the branch, which does not start where the block does. -/
theorem nested_path :
    (Sample.nester.build Sample.nested).2 =
        .ok (Sample.nestedGraph, [.entryPromoted "cfg_3" "cfg_0", .graphBuilt 4 4]) ∧
      (∀ s ∈ Sample.nested.subtrees,
        KindTable.default.category? s.label.kind ≠ some .choice) ∧
      Sample.insideBlock ∈ Sample.nestedGraph.blocks ∧
      readPlace? Sample.insideBlock.path = some [0, 0] ∧
      ∃ s, Sample.nested.at? [0, 0] = some s ∧ s.label.start ≠ Sample.insideBlock.start ∧
        s.label.stop ≠ Sample.insideBlock.stop :=
  ⟨Sample.build_nested, Sample.choiceless_nested, by simp [Sample.nestedGraph], by decide +kernel,
    _, rfl, by decide, by decide⟩

end Builder

end Flowchart
