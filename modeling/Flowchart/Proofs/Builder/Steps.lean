import Flowchart.Proofs.Builder.Outgoing

/-!
# `Flowchart.Proofs.Builder.Steps`: any steps on a builder

Trees can be built, blocks made and edges added on one builder in any order.
Whatever was done, the counter of the builder is the number of the blocks
that it holds, and these have the ids of the numbers below it. A build that
ends at a fault keeps that: it has written a part of its draft from the front.

What a build gives is the same on every builder for the same source, table
and limit. It lists the blocks as they are numbered, and only an entry of its
own, with the last number, comes first.

* `Step`, `run`: steps on a builder;
* `Numbered`, `Numbered.perform`, `Numbered.run`: the numbers of the blocks
  that a builder holds;
* `EntryFirst`: a graph with an entry of its own;
* `listed_of_run`: what a builder holds after any steps, and what it builds
  then.
-/

set_option autoImplicit false

namespace Flowchart.Builder

open Draft

/-! ### Steps -/

/-- A step on a builder. -/
inductive Step where
  | build (tree : SyntaxTree)
  | newBlock (label kind : Json) (node : NodeInfo) (path lines : Json)
  | addEdge (edge : Sketch.Edge)

/-- What a step leaves. A block whose lines cannot be told is not made. -/
def perform (builder : Builder) : Step → Builder
  | .build tree => (builder.build tree).1
  | .newBlock label kind node path lines =>
    match builder.newBlock label kind node path lines with
    | .ok (after, _) => after
    | .error _ => builder
  | .addEdge edge => builder.addEdge edge

/-- What steps leave, one after the other. -/
def run (builder : Builder) (steps : List Step) : Builder :=
  steps.foldl perform builder

section

variable {builder : Builder} {tree : SyntaxTree} {graph : Graph} {notices : List Notice}

/-- A block that is added has the next number, and is the only change. -/
theorem newBlock_eq_ok {label kind : Json} {node : NodeInfo} {path lines : Json} {after : Builder}
    {block : Sketch.Block} (h : builder.newBlock label kind node path lines = .ok (after, block)) :
    block.id = .string (idOf builder.next) ∧
      after = { builder with blocks := builder.blocks ++ [block], next := builder.next + 1 } := by
  unfold Builder.newBlock at h
  split at h
  · cases h
    exact ⟨rfl, rfl⟩
  · obtain ⟨statements, _, h⟩ := bind_eq_ok.1 h
    cases h
    exact ⟨rfl, rfl⟩

/-- A step changes neither the source of a builder nor its table or limit. -/
theorem perform_keeps (builder : Builder) (step : Step) :
    ∃ blocks edges next, builder.perform step = { builder with blocks, edges, next } := by
  cases step with
  | build tree =>
    obtain ⟨_, ⟨_, _, _, _, hbuild⟩ | ⟨_, _, hbuild⟩⟩ := builder.build_cases tree <;>
      exact ⟨_, _, _, congrArg Prod.fst hbuild⟩
  | newBlock label kind node path lines =>
    rw [perform]
    split
    · rename_i after block hmade
      exact ⟨_, _, _, (newBlock_eq_ok hmade).2⟩
    · exact ⟨_, _, _, rfl⟩
  | addEdge edge => exact ⟨_, _, _, rfl⟩

/-- Steps change blocks, edges and the next number, and nothing else. -/
theorem run_keeps (builder : Builder) (steps : List Step) :
    ∃ blocks edges next, builder.run steps = { builder with blocks, edges, next } := by
  induction steps generalizing builder with
  | nil => exact ⟨_, _, _, rfl⟩
  | cons step steps ih =>
    obtain ⟨blocks, edges, next, hstep⟩ := builder.perform_keeps step
    obtain ⟨blocks', edges', next', hsteps⟩ := ih (builder.perform step)
    refine ⟨blocks', edges', next', ?_⟩
    rw [run, List.foldl_cons, ← run, hsteps, hstep]

/-! ### Numbers -/

/-- The counter of a builder is the number of its blocks, and these have the
ids of the numbers below it. -/
structure Numbered (builder : Builder) : Prop where
  next : builder.next = builder.blocks.length
  ids : (builder.blocks.map Sketch.Block.id).Perm
    ((List.range builder.next).map fun n => .string (idOf n))

/-- The ids of the blocks that a builder holds are different. -/
theorem Numbered.nodup (h : builder.Numbered) : (builder.blocks.map Sketch.Block.id).Nodup :=
  h.ids.nodup_iff.2 (List.nodup_range.map fun _ _ heq => idOf_inj.1 (Json.string.inj heq))

/-- A builder that holds a graph is numbered if the ids of the graph are those
of the numbers from zero on. -/
theorem numbered_holding (builder : Builder)
    (h : graph.ids.Perm ((List.range graph.blocks.length).map idOf)) :
    (builder.holding graph).Numbered := by
  refine ⟨(List.length_map _).symm, ?_⟩
  have hids : (graph.sketch.blocks).map Sketch.Block.id = graph.ids.map Json.string := by
    rw [Graph.sketch, Graph.ids, List.map_map, List.map_map]
    rfl
  have hnumbers := h.map Json.string
  rw [List.map_map] at hnumbers
  simp only [holding, hids]
  exact hnumbers

/-- The blocks of a part of a log from its front are numbered from zero on. -/
theorem ids_of_kept {table : KindTable} {marked : MarkedTree} {source : Source}
    {written : Written} {kept : List Event}
    (hkept : kept <+: (draft table marked).draft.log.toList)
    (hwrote : Wrote source .nothing written kept) :
    written.graph.ids = (List.range written.graph.blocks.length).map idOf := by
  obtain ⟨made, hblocks, hwrites⟩ := hwrote.blocks
  have hmade : written.graph.blocks = made := by
    rw [Written.graph, hblocks]
    rfl
  -- What the log kept from its front made the first of the blocks, so the first of the numbers.
  have hprefix : (kept.filterMap Event.block?).map Block.number <+:
      List.range (draft table marked).draft.next := by
    rw [← numbers_draft]
    exact (hkept.filterMap Event.block?).map Block.number
  have hlength : (kept.filterMap Event.block?).length ≤ (draft table marked).draft.next := by
    simpa using hprefix.length_le
  rw [List.prefix_iff_eq_take, List.take_range, List.length_map, Nat.min_eq_left hlength] at hprefix
  rw [Graph.ids, hmade, ids_of_writes hwrites, ← hwrites.length_eq, ← hprefix, List.map_map]
  rfl

/-- The numbers of the blocks of a graph are those from zero on, in some
order. -/
theorem listing_perm (table : KindTable) (marked : MarkedTree) :
    (listing table marked).Perm (List.range (listing table marked).length) := by
  by_cases h : NeedsEntry table marked
  · rw [listing_of_needsEntry h, List.length_cons, List.length_range, List.range_succ]
    exact (List.perm_append_singleton _ _).symm
  · rw [listing_of_not_needsEntry h, List.length_range]

/-- Whatever a builder held, it holds numbered blocks when it has built a
tree, or as much of it as could be built. -/
theorem numbered_build (builder : Builder) (tree : SyntaxTree) :
    (builder.build tree).1.Numbered := by
  obtain ⟨written, ⟨_, kept, hkept, hwrote, hbuild⟩ | ⟨_, hwrote, hbuild⟩⟩ :=
    builder.build_cases tree <;> rw [hbuild]
  · exact numbered_holding builder (.of_eq (ids_of_kept hkept hwrote))
  · have hwrites := (writes_promoted hwrote).1
    refine numbered_holding builder ?_
    rw [Graph.ids, ids_of_writes hwrites, ← hwrites.length_eq, ← List.length_map Draft.Block.number]
    have hperm := (listing_perm builder.table (builder.table.mark tree)).map idOf
    rw [listing, List.map_map] at hperm
    exact hperm

/-- A step keeps the blocks of a builder numbered. -/
theorem Numbered.perform (h : builder.Numbered) (step : Step) :
    (builder.perform step).Numbered := by
  cases step with
  | build tree => exact numbered_build builder tree
  | newBlock label kind node path lines =>
    rw [Builder.perform]
    split
    · rename_i after block hmade
      obtain ⟨hid, rfl⟩ := newBlock_eq_ok hmade
      refine ⟨by simp [h.next], ?_⟩
      simp only [List.map_append, List.map_cons, List.map_nil, hid, List.range_succ]
      exact h.ids.append_right _
    · exact h
  | addEdge edge => exact ⟨h.next, h.ids⟩

/-- Steps keep the blocks of a builder numbered. -/
theorem Numbered.run (h : builder.Numbered) (steps : List Step) : (builder.run steps).Numbered := by
  induction steps generalizing builder with
  | nil => exact h
  | cons step steps ih => exact ih (h.perform step)

/-- A builder with nothing in it numbers its blocks from zero on. -/
theorem numbered_new (source : Source) (table : KindTable) (limit : Json) :
    (new source table limit).Numbered :=
  ⟨rfl, .refl _⟩

/-- What is built does not depend on the steps that were taken before. -/
theorem build_run (builder : Builder) (steps : List Step) (tree : SyntaxTree) :
    (builder.run steps).build tree = builder.build tree := by
  obtain ⟨blocks, edges, next, hrun⟩ := builder.run_keeps steps
  rw [hrun]
  exact builder.build_forgets blocks edges next tree

/-! ### An entry of its own -/

/-- A graph has an entry of its own in front of blocks that are numbered up to
`n`: no other block is an entry, and the only edge at it leads to the first of
these. -/
structure EntryFirst (graph : Graph) (n : Nat) : Prop where
  pos : 0 < n
  ids : graph.ids = idOf n :: (List.range n).map idOf
  entry : ∃ block rest, graph.blocks = block :: rest ∧ block.kind = .entry ∧
    ∀ other ∈ rest, other.kind ≠ .entry
  outgoing : graph.edges.filter (fun edge => edge.source = idOf n) = [⟨idOf n, idOf 0, none⟩]
  incoming : ∀ edge ∈ graph.edges, edge.target ≠ idOf n

/-- An entry of its own comes first in the graph, with the last number. -/
theorem entryFirst_of_needsEntry (h : (builder.build tree).2 = .ok (graph, notices))
    (hentry : NeedsEntry builder.table (builder.table.mark tree)) :
    EntryFirst graph (draft builder.table (builder.table.mark tree)).draft.next := by
  refine ⟨hentry.next_pos, ?_, ?_, ?_, ?_⟩
  · rw [ids_of_build h, listing_of_needsEntry hentry, List.map_cons]
  · have hwrites := blocks_of_build h
    rw [blocks_of_needsEntry hentry] at hwrites
    cases hblocks : graph.blocks with
    | nil =>
      rw [hblocks] at hwrites
      cases hwrites
    | cons block rest =>
      rw [hblocks] at hwrites
      obtain ⟨hblock, hrest⟩ := List.forall₂_cons.1 hwrites
      -- No block behind the entry is another entry: the draft of such a tree has none.
      refine ⟨block, rest, rfl, hblock.kind, fun other hother hkind => ?_⟩
      have hkinds := List.mem_map_of_mem (f := Flowchart.Block.kind) hother
      rw [kinds_of_writes hrest] at hkinds
      obtain ⟨drawn, hdrawn, heq⟩ := List.mem_map.1 hkinds
      exact hentry.entryless drawn hdrawn (heq.trans hkind)
  · have houtgoing := outgoing_of_build h
      (draft builder.table (builder.table.mark tree)).draft.next
    rwa [outgoing_entry hentry] at houtgoing
  · intro edge hedge heq
    obtain ⟨drawn, hdrawn, rfl⟩ := exists_drawn h hedge
    have htarget := idOf_inj.1 heq
    rw [edges_of_needsEntry hentry, List.mem_append, List.mem_singleton] at hdrawn
    -- Its number is the last one, which no edge of the draft and not its own edge leads to.
    rcases hdrawn with hdrawn | rfl
    · exact absurd htarget (Nat.ne_of_lt (ends_lt_next hdrawn).2)
    · exact absurd htarget (Nat.ne_of_lt hentry.next_pos)

/-- Where no entry of its own is needed, blocks are listed as they are
numbered. -/
theorem ids_of_not_needsEntry (h : (builder.build tree).2 = .ok (graph, notices))
    (hentry : ¬NeedsEntry builder.table (builder.table.mark tree)) :
    graph.ids = (List.range graph.blocks.length).map idOf := by
  have hids := ids_of_build h
  rw [listing_of_not_needsEntry hentry] at hids
  have hlength := congrArg List.length hids
  rw [Graph.ids, List.length_map, List.length_map, List.length_range] at hlength
  rw [hids, hlength]

/-- An entry of its own is in front of a graph where one is needed, and only
there. -/
theorem needsEntry_iff (h : (builder.build tree).2 = .ok (graph, notices)) :
    NeedsEntry builder.table (builder.table.mark tree) ↔ ∃ n, EntryFirst graph n := by
  refine ⟨fun hentry => ⟨_, entryFirst_of_needsEntry h hentry⟩, fun ⟨n, hfirst⟩ => ?_⟩
  by_contra hentry
  have hids := ids_of_not_needsEntry h hentry
  rw [hfirst.ids] at hids
  -- A list of numbers that goes up from zero does not start with `n`.
  cases hlength : graph.blocks.length with
  | zero =>
    rw [hlength] at hids
    cases hids
  | succ length =>
    rw [hlength, List.range_succ_eq_map, List.map_cons] at hids
    exact absurd (idOf_inj.1 (List.cons.inj hids).1) (Nat.ne_of_gt hfirst.pos)

/-- After any steps, the counter of a builder is the number of its blocks,
which have the ids of the numbers below it, each once. What it builds of a
tree then is what a new builder builds. A graph that is built lists its blocks
as they are numbered, with an entry of its own in front where one is needed,
and its edges join its blocks. -/
theorem listed_of_run (source : Source) (table : KindTable) (limit : Json) (steps : List Step) :
    ((new source table limit).run steps).Numbered ∧
    (((new source table limit).run steps).blocks.map Sketch.Block.id).Nodup ∧
    ∀ tree, ((new source table limit).run steps).build tree = (new source table limit).build tree ∧
      ∀ graph notices, (((new source table limit).run steps).build tree).2 = .ok (graph, notices) →
        (NeedsEntry table (table.mark tree) ↔ ∃ n, EntryFirst graph n) ∧
        (¬NeedsEntry table (table.mark tree) →
          graph.ids = (List.range graph.blocks.length).map idOf) ∧
        ∀ edge ∈ graph.edges, edge.source ∈ graph.ids ∧ edge.target ∈ graph.ids := by
  have hnumbered := (numbered_new source table limit).run steps
  refine ⟨hnumbered, hnumbered.nodup, fun tree => ⟨build_run _ steps tree, ?_⟩⟩
  intro graph notices hbuild
  rw [build_run] at hbuild
  exact ⟨needsEntry_iff hbuild, ids_of_not_needsEntry hbuild,
    fun edge hedge => (forward_or_goesBack hbuild hedge).1⟩

end

namespace Sample

/-- A block, an edge from nowhere to nowhere, a tree and another block. -/
def steps : List Step :=
  [.newBlock (.string "first") (.string "entry") (Draft.Sample.node "call") .null .null,
    .addEdge ⟨.null, .null, .null⟩, .build straight,
    .newBlock (.string "last") (.string "exit") (Draft.Sample.node "call") .null (.string "end")]

/-- The blocks of the program are a loop and two statements. -/
theorem kinds_program :
    (draft Draft.Sample.kinds (Draft.Sample.kinds.mark Draft.Sample.program)).draft.blocks.map
      Draft.Block.kind = [.loop, .statement, .statement] := by
  decide +kernel

/-- The program needs an entry of its own. -/
theorem needsEntry_program :
    NeedsEntry Draft.Sample.kinds (Draft.Sample.kinds.mark Draft.Sample.program) where
  plain := by cbv
  named := by
    rw [KindTable.namedChildren_mark]
    exact List.cons_ne_nil _ _
  drafted h := by
    have hkinds := kinds_program
    rw [h] at hkinds
    cases hkinds
  entryless block hblock hentry := by
    have hmem := List.mem_map_of_mem (f := Draft.Block.kind) hblock
    rw [kinds_program, hentry] at hmem
    revert hmem
    decide

end Sample

/-- After the steps of the sample there are three blocks. Its program is built
as ever, with an entry in front. -/
theorem listed_of_run_sample :
    (Sample.builder.run Sample.steps).next = 3 ∧
      (Sample.builder.run Sample.steps).Numbered ∧
      ((Sample.builder.run Sample.steps).build Draft.Sample.program).2 =
        .ok (Sample.graph, [.entryPromoted "cfg_3" "cfg_0", .graphBuilt 4 4]) ∧
      ∃ n, EntryFirst Sample.graph n := by
  obtain ⟨hnumbered, _, hbuild⟩ :=
    listed_of_run ⟨.empty⟩ Draft.Sample.kinds (.int 40) Sample.steps
  obtain ⟨hsame, hgraph⟩ := hbuild Draft.Sample.program
  have hbuilt := (congrArg Prod.snd hsame).trans Sample.build_program
  obtain ⟨hentry, _⟩ := hgraph _ _ hbuilt
  exact ⟨by decide +kernel, hnumbered, hbuilt, hentry.1 Sample.needsEntry_program⟩

end Flowchart.Builder
