import Mathlib.Data.Option.Basic
import Flowchart.Proofs.Builder.Tokens

/-!
# `Flowchart.Proofs.Outline.Sequencing`: one thing after another

Of three things in a row the first two can be taken for one, or the last two:
the blocks, their numbers and the ways out are the same, and so are the edges,
only that they are drawn in another order. What builds nothing makes no
difference, and neither do paths. So a chain of nodes can be cut anywhere: a
slice of it that is put into a row of its own, as what is in a pair of braces,
builds the same.

* `SameGraph`: outlines whose edges are drawn in another order;
* `chained_append`: a row that is cut in two;
* `runRequest_wrapped`: a chain, and the chain with a slice of it in a row of
  its own.
-/

set_option autoImplicit false

namespace Flowchart.Draft

namespace Outline

/-! ### Rows of outlines -/

/-- Two outlines stand for one graph, but for the order in which its edges are
drawn. -/
structure SameGraph (outline other : Outline) : Prop where
  size : outline.size = other.size
  exits : ∀ a, outline.exits a = other.exits a
  blocks : ∀ a, outline.blocks a = other.blocks a
  edges : ∀ a, (outline.edges a).Perm (other.edges a)

namespace SameGraph

variable {first first' second second' third : Outline}

/-- Every outline has the graph of itself. -/
theorem refl (outline : Outline) : SameGraph outline outline :=
  ⟨rfl, fun _ => rfl, fun _ => rfl, fun _ => .refl _⟩

/-- To have the same graph goes both ways. -/
theorem symm (h : SameGraph first second) : SameGraph second first :=
  ⟨h.size.symm, fun a => (h.exits a).symm, fun a => (h.blocks a).symm, fun a => (h.edges a).symm⟩

/-- To have the same graph is transitive. -/
theorem trans (h : SameGraph first second) (h' : SameGraph second third) :
    SameGraph first third :=
  ⟨h.size.trans h'.size, fun a => (h.exits a).trans (h'.exits a),
    fun a => (h.blocks a).trans (h'.blocks a), fun a => (h.edges a).trans (h'.edges a)⟩

/-- One thing after another has the same graph if both things do. -/
theorem sequel (h : SameGraph first first') (h' : SameGraph second second') :
    SameGraph (.sequel first second) (.sequel first' second') where
  size := by rw [Outline.size, Outline.size, h.size, h'.size]
  exits a := by rw [Outline.exits, Outline.exits, h.size, h'.exits]
  blocks a := by rw [Outline.blocks, Outline.blocks, h.size, h.blocks, h'.blocks]
  edges a := by
    rw [Outline.edges, Outline.edges, h.size, h.exits]
    exact ((h.edges a).append (h'.edges _)).append_right _

/-- Of three things in a row, the first two or the last two are one. -/
theorem assoc (first second third : Outline) :
    SameGraph (.sequel (.sequel first second) third) (.sequel first (.sequel second third)) where
  size := by simp only [Outline.size, Nat.add_assoc]
  exits a := by simp only [Outline.exits, Outline.size, Nat.add_assoc]
  blocks a := by simp only [Outline.blocks, Outline.size, Nat.add_assoc, List.append_assoc]
  edges a := by
    simp only [Outline.edges, Outline.exits, Outline.size, Nat.add_assoc, List.append_assoc]
    -- The edges between the first two are drawn before those of the third, or last of all.
    refine List.Perm.append_left _ (List.Perm.append_left _ ?_)
    rw [← List.append_assoc (third.edges _)]
    exact List.perm_append_comm

end SameGraph

/-- The same of parts that may have built nothing. -/
abbrev SameIfAny : Option Outline → Option Outline → Prop :=
  Option.Rel SameGraph

namespace SameIfAny

variable {part other third : Option Outline}

/-- Every part is the same as itself. -/
theorem refl (part : Option Outline) : SameIfAny part part := by
  cases part with
  | none => exact .none
  | some outline => exact .some (.refl outline)

/-- Parts that are the same are so both ways. -/
theorem symm (h : SameIfAny part other) : SameIfAny other part := by
  cases h with
  | none => exact .none
  | some h => exact .some h.symm

/-- To be the same is transitive. -/
theorem trans (h : SameIfAny part other) (h' : SameIfAny other third) : SameIfAny part third := by
  cases h with
  | none => exact h'
  | some h =>
    cases h' with
    | some h' => exact .some (h.trans h')

/-- What is linked is the same if both parts are. -/
theorem follow {part' other' : Option Outline} (h : SameIfAny part part')
    (h' : SameIfAny other other') : SameIfAny (follow part other) (follow part' other') :=
  follow_rel SameGraph.sequel h h'

/-- Parts that are the same have the same blocks. -/
theorem blocks (h : SameIfAny part other) (a : Nat) : blocksIfAny part a = blocksIfAny other a := by
  cases h with
  | none => rfl
  | some h => exact h.blocks a

/-- Parts that are the same have the same edges, in some order. -/
theorem edges (h : SameIfAny part other) (a : Nat) :
    (edgesIfAny part a).Perm (edgesIfAny other a) := by
  cases h with
  | none => exact .refl _
  | some h => exact h.edges a

/-- Parts that are the same have the same fragment. -/
theorem fragment (h : SameIfAny part other) (a : Nat) :
    part.map (Outline.fragment · a) = other.map (Outline.fragment · a) := by
  cases h with
  | none => rfl
  | some h =>
    rw [Option.map_some, Option.map_some, Outline.fragment, Outline.fragment, h.exits a]

end SameIfAny

/-- Three parts are linked to the same, from the front and from the back. -/
theorem follow_assoc (first second third : Option Outline) :
    SameIfAny (follow (follow first second) third) (follow first (follow second third)) := by
  cases third with
  | none => exact .refl _
  | some third =>
    cases second with
    | none => exact .refl _
    | some second =>
      cases first with
      | none => exact .refl _
      | some first => exact .some (.assoc first second third)

/-- To link a part to nothing leaves the part. -/
theorem none_follow (part : Option Outline) : follow none part = part := by
  cases part <;> rfl

/-- A row that goes on from what was linked is that and then the row. -/
theorem foldl_follow (links : List (Option Outline)) (linked : Option Outline) :
    SameIfAny (links.foldl follow linked) (follow linked (chained links)) := by
  induction links generalizing linked with
  | nil => exact .refl _
  | cons link links ih =>
    have hrest : SameIfAny (follow link (chained links)) (chained (link :: links)) := by
      rw [chained, chained, List.foldl_cons, none_follow]
      exact (ih link).symm
    exact (ih (follow linked link)).trans
      ((follow_assoc linked link _).trans ((SameIfAny.refl linked).follow hrest))

/-- A row that is cut in two. -/
theorem chained_append (links links' : List (Option Outline)) :
    SameIfAny (chained (links ++ links')) (follow (chained links) (chained links')) := by
  rw [chained, List.foldl_append]
  exact foldl_follow links' _

/-- A slice of a row can be taken for one link. -/
theorem chained_slice (before slice after : List (Option Outline)) :
    SameIfAny (chained (before ++ slice ++ after))
      (chained (before ++ chained slice :: after)) := by
  have hslice : SameIfAny (chained (chained slice :: after))
      (follow (chained slice) (chained after)) := by
    rw [chained, List.foldl_cons, none_follow]
    exact foldl_follow after _
  rw [List.append_assoc]
  have hbehind := (chained_append slice after).trans hslice.symm
  exact (chained_append before _).trans
    (((SameIfAny.refl _).follow hbehind).trans (chained_append before _).symm)

end Outline

open Outline

/-! ### A slice in a row of its own -/

section

variable (table : KindTable)

/-- What the nodes of a row are made into, tokens left out. -/
def linksOf (ts : List SyntaxTree) : List (Option Outline) :=
  (ts.filter SyntaxTree.isNamed).map fun t => nodeShape table (table.mark t)

/-- Two rows in one are made into what each is made into. -/
theorem linksOf_append (ts us : List SyntaxTree) :
    linksOf table (ts ++ us) = linksOf table ts ++ linksOf table us := by
  rw [linksOf, List.filter_append, List.map_append]
  rfl

/-- A named node is the first link of its row. -/
theorem linksOf_cons {t : SyntaxTree} (hnamed : t.isNamed = true) (ts : List SyntaxTree) :
    linksOf table (t :: ts) = nodeShape table (table.mark t) :: linksOf table ts := by
  rw [linksOf, List.filter_cons_of_pos hnamed, List.map_cons]
  rfl

/-- The named children of a node are made into the links of its children. -/
theorem map_nodeShape_mark (info : NodeInfo) (ts : List SyntaxTree) :
    (MarkedTree.namedChildren (table.mark (.node info ts))).map (nodeShape table) =
      linksOf table ts := by
  rw [KindTable.namedChildren_mark, List.map_map]
  rfl

/-- A chain links what the children of its node are made into. -/
theorem shape_chain_mark (info : NodeInfo) (ts : List SyntaxTree) (path : Path) :
    shape table ⟨.chain, table.mark (.node info ts), path⟩ = chained (linksOf table ts) := by
  rw [shape_chain, map_nodeShape_mark]

/-- A row of statements is made into what is in it. -/
theorem nodeShape_row {row : NodeInfo} (hrow : table.has .containers row.kind = true)
    (hplain : table.category? row.kind = none) (ts : List SyntaxTree) :
    nodeShape table (table.mark (.node row ts)) = chained (linksOf table ts) := by
  rw [shape_container, map_nodeShape_mark]
  · rw [KindTable.kind_mark]
    exact hplain
  · rw [KindTable.isContainer, KindTable.kind_mark, Tree.label_node, hrow, Bool.true_or]

/-- A row of statements in a chain can be taken for what is in it. -/
theorem sameIfAny_wrapped (info : NodeInfo) {row : NodeInfo} (hnamed : row.isNamed = true)
    (hrow : table.has .containers row.kind = true) (hplain : table.category? row.kind = none)
    (before slice after : List SyntaxTree) (path : Path) :
    SameIfAny
      (shape table ⟨.chain, table.mark (.node info (before ++ slice ++ after)), path⟩)
      (shape table
        ⟨.chain, table.mark (.node info (before ++ .node row slice :: after)), path⟩) := by
  -- The row is a chain of its own, one link among the others.
  have hslice : linksOf table (.node row slice :: after) =
      chained (linksOf table slice) :: linksOf table after := by
    have hkept : SyntaxTree.isNamed (.node row slice) = true := hnamed
    rw [linksOf_cons table hkept, nodeShape_row table hrow hplain]
  rw [shape_chain_mark, shape_chain_mark, linksOf_append, linksOf_append, linksOf_append, hslice]
  exact chained_slice _ _ _

end

/-! ### What is drafted -/

/-- A slice of a chain that is put into a row of its own changes nothing of
what the chain gives and drafts: the blocks differ in their paths only,
however their texts are written, and the edges in their order only. -/
theorem runRequest_wrapped (table : KindTable) (info : NodeInfo) {row : NodeInfo}
    (hnamed : row.isNamed = true) (hrow : table.has .containers row.kind = true)
    (hplain : table.category? row.kind = none) (before slice after : List SyntaxTree)
    (path : Path) {d d' : Draft} (hnext : d.next = d'.next) :
    let r : Request := ⟨.chain, table.mark (.node info (before ++ slice ++ after)), path⟩
    let r' : Request :=
      ⟨.chain, table.mark (.node info (before ++ .node row slice :: after)), path⟩
    (runRequest table r d).1 = (runRequest table r' d').1 ∧
      ∃ blocks edges blocks' edges',
        Adds d (runRequest table r d).2 blocks edges ∧
        Adds d' (runRequest table r' d').2 blocks' edges' ∧
        blocks.map Block.withoutPath = blocks'.map Block.withoutPath ∧
        (∀ source n, (blocks.map (Block.writeWithin source n)).map Flowchart.Block.withoutPath =
          (blocks'.map (Block.writeWithin source n)).map Flowchart.Block.withoutPath) ∧
        edges.Perm edges' := by
  intro r r'
  have hsame : SameIfAny (shape table r) (shape table r') :=
    sameIfAny_wrapped table info hnamed hrow hplain before slice after path
  obtain ⟨hresult, hadds⟩ := drafts table r d.next d rfl
  obtain ⟨hresult', hadds'⟩ := drafts table r' d.next d' hnext.symm
  -- The two shapes are the same up to the order of edges, and each is numbered from one number on.
  have hblocks := hsame.blocks d.next
  rw [blocksIfAny_shape, blocksIfAny_shape] at hblocks
  have hedges := hsame.edges d.next
  rw [edgesIfAny_shape, edgesIfAny_shape] at hedges
  have hfragment := hsame.fragment d.next
  rw [fragment_shape, fragment_shape] at hfragment
  rw [runRequest_eq_serve, runRequest_eq_serve]
  exact ⟨hresult.trans (hfragment.trans hresult'.symm), _, _, _, _, hadds, hadds', hblocks,
    fun source n => map_writeWithin source n hblocks, hedges⟩

/-! ### A sample

A statement and a way out in braces, between two statements. The last one is never
reached. -/

namespace Sample

/-- A statement. -/
def step : SyntaxTree :=
  .node (node "expression_statement") []

/-- What is in the braces. -/
def wayOut : List SyntaxTree :=
  [step, .node (node "return_statement") []]

/-- The row without the braces. -/
def plainRow : Request :=
  ⟨.chain, KindTable.default.mark (.node (node "program") ([step] ++ wayOut ++ [step])),
    []⟩

/-- The row with the braces. -/
def bracedRow : Request :=
  ⟨.chain, KindTable.default.mark
    (.node (node "program") ([step] ++ .node (node "block") wayOut :: [step])), []⟩

/-- A block in braces is a container. -/
theorem has_block : KindTable.default.has .containers (node "block").kind = true := by
  decide +kernel

/-- A block in braces has no category. -/
theorem category_block : KindTable.default.category? (node "block").kind = none := by
  decide +kernel

end Sample

/-- With the braces, the two edges are drawn the other way around. -/
theorem runRequest_wrapped_block :
    (runRequest .default Sample.plainRow empty).1 = some ⟨0, [3]⟩ ∧
      (runRequest .default Sample.bracedRow empty).1 = some ⟨0, [3]⟩ ∧
      ∃ blocks edges blocks' edges',
        Adds empty (runRequest .default Sample.plainRow empty).2 blocks edges ∧
        Adds empty (runRequest .default Sample.bracedRow empty).2 blocks' edges' ∧
        blocks.map Block.withoutPath = blocks'.map Block.withoutPath ∧
        blocks.map Block.number = [0, 1, 2, 3] ∧
        edges = [⟨0, 1, .onward⟩, ⟨1, 2, .onward⟩] ∧
        edges' = [⟨1, 2, .onward⟩, ⟨0, 1, .onward⟩] ∧ edges.Perm edges' := by
  obtain ⟨hfragment, blocks, edges, blocks', edges', hadds, hadds', hblocks, _, hperm⟩ :=
    runRequest_wrapped .default (Sample.node "program") rfl Sample.has_block Sample.category_block
      [Sample.step] Sample.wayOut [Sample.step] [] (show empty.next = empty.next from rfl)
  -- The fragment, the numbers and both lists of edges are run; that the edges are permuted is not.
  have hplain : (runRequest .default Sample.plainRow empty).1 = some ⟨0, [3]⟩ := by
    with_unfolding_all rfl
  have hnumbers : (runRequest .default Sample.plainRow empty).2.blocks.map Block.number =
      [0, 1, 2, 3] := by
    with_unfolding_all rfl
  have hedges : (runRequest .default Sample.plainRow empty).2.edges =
      [⟨0, 1, .onward⟩, ⟨1, 2, .onward⟩] := by
    with_unfolding_all rfl
  have hedges' : (runRequest .default Sample.bracedRow empty).2.edges =
      [⟨1, 2, .onward⟩, ⟨0, 1, .onward⟩] := by
    with_unfolding_all rfl
  refine ⟨hplain, hfragment.symm.trans hplain, blocks, edges, blocks', edges', hadds, hadds',
    hblocks, ?_, ?_, ?_, hperm⟩
  · exact (congrArg (List.map Block.number) hadds.blocks).symm.trans hnumbers
  · exact hadds.edges.symm.trans hedges
  · exact hadds'.edges.symm.trans hedges'

end Flowchart.Draft
