import Flowchart.Proofs.Builder.Listing
import Flowchart.Proofs.Outline.Sealed

/-!
# `Flowchart.Proofs.Outline.Region`: stretches with one way in

What is drafted for a request is a stretch of blocks that control enters at
its first block and leaves from its exits only. That holds of the graph of
the whole tree, whatever the constructs around the request draw later.

The outline of the root is sealed in the graph, and what is sealed has
sealed pieces, so every outline inside that of the root is sealed.

* `Served.sealed`: the outlines of the requests are sealed;
* `Closed`: a stretch of blocks of a graph has one way in and known ways out;
* `region_of_served`: what a request drafts, and that it is closed in every
  graph that is built of the tree.
-/

set_option autoImplicit false

namespace Flowchart.Draft

open Outline

section

variable {table : KindTable} {tree : MarkedTree}

/-- What lies inside a sealed outline is sealed. -/
theorem Outline.Sealed.within {edges : List Edge} {p q : Nat × Outline} (hp : Sealed edges p)
    (h : Within p q) : Sealed edges q := by
  induction h with
  | whole => exact hp
  | piece _ hq ih => exact ih.piece hq

/-- The outline of the root is sealed in the graph of the tree. -/
theorem sealed_root {whole : Outline}
    (hwhole : outline table (rootRequest table tree) = some whole) :
    Sealed (draft table tree).edges (0, whole) := by
  -- An entry of its own has the number behind the outline.
  have hentry : ¬whole.Covers 0 whole.size := by
    unfold Covers
    omega
  -- An edge of the tree is one of the outline, or the one from such an entry to block 0.
  refine ⟨fun h hm _ => ?_, fun h hm hn => ?_, fun h hm _ => ?_⟩ <;>
    rcases joined_draft hwhole h with h | ⟨rfl, rfl⟩
  · exact absurd (covers_joined h).1 hm
  · rfl
  · exact absurd (covers_joined h).2 hn
  · exact absurd hm hentry
  · exact h
  · exact absurd hm hentry

/-- Whatever is served while a tree is drafted is sealed in the graph of the
tree. -/
theorem Served.sealed {r : Request} {d : Draft} (h : Served table tree r d) {inner : Outline}
    (hinner : outline table r = some inner) : Sealed (draft table tree).edges (d.next, inner) := by
  obtain ⟨whole, hwhole, hwithin⟩ := h.within hinner
  exact (sealed_root hwhole).within hwithin

end

/-! ### Stretches of blocks -/

/-- What serving a request drafts: blocks with consecutive numbers, and a
fragment that is entered at the first of them and left from some of them.
There is no fragment where no block is made. -/
structure Region (before after : Draft) (result : Option Fragment) (blocks : List Block)
    (edges : List Edge) : Prop where
  adds : Adds before after blocks edges
  numbers : blocks.map Block.number = List.range' before.next blocks.length
  result_eq_none_iff : result = none ↔ blocks = []
  no_edges : blocks = [] → edges = []
  entry : ∀ fragment ∈ result, fragment.entry = before.next
  nodup : ∀ fragment ∈ result, fragment.exits.Nodup
  exits : ∀ fragment ∈ result, ∀ n ∈ fragment.exits, n ∈ blocks.map Block.number

/-- Whatever draft a request is served on, it drafts a stretch of blocks. -/
theorem region_serve (table : KindTable) (r : Request) (d : Draft) :
    Region d (serve table r d).2 (serve table r d).1 (blocksIfAny (outline table r) d.next)
      (edgesIfAny (outline table r) d.next) := by
  obtain ⟨hresult, hadds⟩ := drafts table r d.next d rfl
  rw [hresult]
  cases houtline : outline table r with
  | none =>
    rw [houtline] at hadds
    exact ⟨hadds, rfl, by simp, fun _ => rfl, nofun, nofun, nofun⟩
  | some inner =>
    rw [houtline] at hadds
    have hne : inner.blocks d.next ≠ [] := by
      rw [← List.length_pos_iff, length_blocks]
      exact inner.size_pos
    -- What is drafted is the outline, numbered from the next free number on.
    refine ⟨hadds, ?_, ?_, fun h => absurd h hne, ?_, ?_, ?_⟩
    · rw [blocksIfAny_some, number_blocks, length_blocks]
    · simp [hne]
    · rintro _ ⟨⟩
      rfl
    · rintro _ ⟨⟩
      exact nodup_exits inner d.next
    · rintro _ ⟨⟩ n hn
      exact mem_blocks_iff.2 (covers_exit hn)

/-- In a graph, control gets into a stretch of blocks at the entry of a
fragment only, and out of it from the exits of the fragment only. -/
structure Closed (graph : Graph) (numbers : List Nat) (fragment : Fragment) : Prop where
  entered : ∀ edge ∈ graph.edges, edge.source ∉ numbers.map idOf → edge.target ∈ numbers.map idOf →
    edge.target = idOf fragment.entry
  left : ∀ edge ∈ graph.edges, edge.source ∈ numbers.map idOf → edge.target ∉ numbers.map idOf →
    edge.source ∈ fragment.exits.map idOf

/-- The edges of a graph that was built join what the edges of its draft
join. -/
theorem joined_of_build {builder : Builder} {tree : SyntaxTree} {graph : Graph}
    {notices : List Notice} (hbuild : (builder.build tree).2 = .ok (graph, notices))
    {edge : Flowchart.Edge} (h : edge ∈ graph.edges) :
    ∃ m n, Joined (draft builder.table (builder.table.mark tree)).edges m n ∧
      edge.source = idOf m ∧ edge.target = idOf n := by
  obtain ⟨drawn, hdrawn, rfl⟩ := Builder.exists_drawn hbuild h
  exact ⟨drawn.source, drawn.target, ⟨drawn, hdrawn, rfl, rfl⟩, rfl, rfl⟩

/-- What is sealed in the draft of a tree is closed in the graph that is
built of the tree. -/
theorem closed_of_sealed {builder : Builder} {tree : SyntaxTree} {graph : Graph}
    {notices : List Notice} (hbuild : (builder.build tree).2 = .ok (graph, notices))
    {inner : Outline} {a : Nat}
    (h : Sealed (draft builder.table (builder.table.mark tree)).edges (a, inner)) :
    Closed graph ((inner.blocks a).map Block.number) (inner.fragment a) := by
  refine ⟨fun edge hedge hsource htarget => ?_, fun edge hedge hsource htarget => ?_⟩ <;>
    obtain ⟨m, n, hjoined, hm, hn⟩ := joined_of_build hbuild hedge <;>
    rw [hm, mem_map_idOf, mem_blocks_iff] at hsource <;>
    rw [hn, mem_map_idOf, mem_blocks_iff] at htarget
  · rw [hn, h.entered hjoined hsource htarget]
    rfl
  · rw [hm, mem_map_idOf]
    exact h.left hjoined hsource htarget

/-- The outline of a loop is left from its header. -/
theorem exits_of_loop {table : KindTable} {r : Request} (hmode : r.mode = .visit)
    (hcategory : table.category? r.tree.label.kind = some .loop) {inner : Outline}
    (hinner : outline table r = some inner) (a : Nat) : inner.exits a = [a] := by
  rw [outline_loop hmode hcategory] at hinner
  cases hinner
  rfl

/-- What is served while a tree is drafted makes a stretch of blocks that
stays in the draft of the tree, and that control enters at one block and
leaves from the exits in every graph that is built of the tree. Loops are
left from their header. -/
theorem region_of_served {builder : Builder} {tree : SyntaxTree} {r : Request} {d : Draft}
    (h : Served builder.table (builder.table.mark tree) r d) :
    ∃ blocks edges, Region d (serve builder.table r d).2 (serve builder.table r d).1 blocks edges ∧
      (∃ later drawn, Adds (serve builder.table r d).2
        (draft builder.table (builder.table.mark tree)).draft later drawn) ∧
      ∀ fragment ∈ (serve builder.table r d).1,
        (r.mode = .visit → builder.table.category? r.tree.label.kind = some .loop →
          fragment.exits = [fragment.entry]) ∧
        ∀ graph notices, (builder.build tree).2 = .ok (graph, notices) →
          Closed graph (blocks.map Block.number) fragment := by
  -- Without an outline there is no fragment and nothing to close.
  refine ⟨_, _, region_serve builder.table r d, h.goes_on, ?_⟩
  have hresult := (drafts builder.table r d.next d rfl).1
  cases houtline : outline builder.table r with
  | none =>
    rw [houtline] at hresult
    rw [hresult]
    exact nofun
  | some inner =>
    rw [houtline] at hresult
    rw [hresult]
    rintro _ ⟨⟩
    refine ⟨fun hmode hcategory => exits_of_loop hmode hcategory houtline d.next, ?_⟩
    exact fun graph notices hbuild => closed_of_sealed hbuild (h.sealed houtline)

/-! The loop of the sample, with the graph that is built of the program. Two
edges come in from outside the stretch, both to the header, and the one that
goes out of it leaves the header. -/

/-- The loop of the sample makes the blocks 0 and 1. In the graph, control gets
into them at block 0 only, and out of them from there only. -/
theorem region_of_served_loop :
    Served Sample.kinds (Sample.kinds.mark Sample.program) Sample.loop Sample.beforeLoop ∧
      (Builder.Sample.builder.build Sample.program).2 =
        .ok (Builder.Sample.graph, [.entryPromoted "cfg_3" "cfg_0", .graphBuilt 4 4]) ∧
      ∃ blocks edges,
        Region Sample.beforeLoop (serve Sample.kinds Sample.loop Sample.beforeLoop).2
          (some ⟨0, [0]⟩) blocks edges ∧
        blocks.map Block.number = [0, 1] ∧ Closed Builder.Sample.graph [0, 1] ⟨0, [0]⟩ := by
  obtain ⟨blocks, edges, hregion, _, h⟩ :=
    @region_of_served Builder.Sample.builder _ _ _ Sample.served_loop
  change Region _ (serve Sample.kinds Sample.loop Sample.beforeLoop).2
    (serve Sample.kinds Sample.loop Sample.beforeLoop).1 blocks edges at hregion
  -- The next free number is 0 before the loop and 2 behind it.
  have hnumbers : blocks.map Block.number = [0, 1] := by
    have hnext := hregion.adds.next
    rw [Sample.next_loop, Sample.next_beforeLoop] at hnext
    have hlength : blocks.length = 2 := by omega
    rw [hregion.numbers, hlength, Sample.next_beforeLoop]
    rfl
  have hclosed := (h _ Sample.serve_loop).2 _ _ Builder.Sample.build_program
  rw [hnumbers] at hclosed
  rw [Sample.serve_loop] at hregion
  exact ⟨Sample.served_loop, Builder.Sample.build_program, blocks, edges, hregion, hnumbers,
    hclosed⟩

end Flowchart.Draft
