import Flowchart.Builder
import Flowchart.Proofs.Except
import Flowchart.Proofs.Graph.Distinct
import Mathlib.Data.List.Forall2

/-!
# `Flowchart.Proofs.Draft.Written`: from a draft to a graph

A graph that was built shows the blocks and edges of its draft, each with the
ids of the blocks it joins. No two blocks have the same id, so nothing is
lost in writing the numbers down. Where a fault ends the writing, a part of
the log from its front was written.

* `idOf_inj`: different numbers have different ids;
* `Draft.Block.Writes`: what a block takes over from its draft, whatever its
  texts are;
* `Draft.Wrote`, `writeLog_kept`: what is written of a log;
* `build_cases`: all that a build can come to;
* `blocks_of_build`, `edges_of_build`: the blocks and edges of a graph that
  was built are those of its draft, the edges without repetitions.
-/

set_option autoImplicit false

namespace Flowchart

/-! ### Ids -/

namespace Draft

/-- Numbers are told by their digits. -/
theorem toString_inj {m n : Nat} (h : toString m = toString n) : m = n := by
  have hread := congrArg (fun s => Nat.ofDigitChars 10 s.toList 0) h
  simpa [Nat.toString_eq_repr, Nat.toList_repr] using hread

/-- Ids are told by their numbers. -/
theorem idOf_inj {m n : Nat} : idOf m = idOf n ↔ m = n := by
  refine ⟨fun h => ?_, fun h => h ▸ rfl⟩
  exact toString_inj (Text.ofString_inj.1 (List.append_cancel_left h))

/-- An id is among those of some numbers if its number is one of them. -/
theorem mem_map_idOf {n : Nat} {numbers : List Nat} : idOf n ∈ numbers.map idOf ↔ n ∈ numbers := by
  refine ⟨fun h => ?_, List.mem_map_of_mem⟩
  obtain ⟨m, hm, hid⟩ := List.mem_map.1 h
  exact idOf_inj.1 hid ▸ hm

end Draft

/-! ### Writing -/

namespace Draft

/-- What a block takes over from its draft, whatever its texts are. -/
structure Block.Writes (drawn : Block) (made : Flowchart.Block) : Prop where
  id : made.id = idOf drawn.number
  kind : made.kind = drawn.kind
  start : made.start = drawn.node.start
  stop : made.stop = drawn.node.stop
  startPosition : made.startPosition = drawn.node.startPosition
  stopPosition : made.stopPosition = drawn.node.stopPosition
  path : made.path = drawn.path.text

/-- A block that is written is what it was drafted as. -/
theorem Block.writes_of_write {source : Source} {shorten : Text → Except Fault Text}
    {drawn : Block} {made : Flowchart.Block} (h : drawn.write source shorten = .ok made) :
    drawn.Writes made := by
  obtain ⟨⟨label, statements⟩, _, h⟩ := bind_eq_ok.1 h
  cases h
  exact ⟨rfl, rfl, rfl, rfl, rfl, rfl, rfl⟩

/-- The blocks and edges of some events are written behind what was written
before. -/
structure Wrote (source : Source) (before after : Written) (events : List Event) : Prop where
  blocks : ∃ made, after.blocks.toList = before.blocks.toList ++ made ∧
    List.Forall₂ Block.Writes (events.filterMap Event.block?) made
  edges : after.edges.toList =
    before.edges.toList ++ (events.filterMap Event.edge?).map (Edge.write source)

namespace Wrote

variable {source : Source} {before after : Written} {events : List Event}

/-- Where nothing happened, nothing is written. -/
theorem nothing (source : Source) (written : Written) : Wrote source written written [] :=
  ⟨⟨[], by simp, .nil⟩, by simp⟩

/-- A block that is made is written, and what comes behind it too. -/
theorem block {drawn : Block} {made : Flowchart.Block} (hmade : drawn.Writes made)
    (h : Wrote source { before with blocks := before.blocks.push made } after events) :
    Wrote source before after (.block drawn :: events) := by
  obtain ⟨⟨others, hblocks, hwrites⟩, hedges⟩ := h
  exact ⟨⟨made :: others, by simpa using hblocks, .cons hmade hwrites⟩, hedges⟩

/-- An edge that is drawn is written, and what comes behind it too. -/
theorem edge {drawn : Edge}
    (h : Wrote source { before with edges := before.edges.push (drawn.write source) } after
      events) :
    Wrote source before after (.edge drawn :: events) :=
  ⟨h.blocks, by simpa [List.filterMap_cons, Event.edge?] using h.edges⟩

/-- A node that is cut off writes nothing. -/
theorem cut {node : NodeInfo} (h : Wrote source before after events) :
    Wrote source before after (.cut node :: events) :=
  ⟨h.blocks, h.edges⟩

end Wrote

/-- A part of a log from its front is written, and all of it where there is no
fault. -/
theorem writeLog_kept {source : Source} {limit : Json} {before after : Written}
    {log : List Event} {fault? : Option Fault}
    (h : writeLog source limit before log = (after, fault?)) :
    ∃ kept, kept <+: log ∧ (fault? = none → kept = log) ∧ Wrote source before after kept := by
  induction log generalizing before with
  | nil =>
    cases h
    exact ⟨[], List.prefix_rfl, fun _ => rfl, .nothing source _⟩
  | cons event log ih =>
    -- What is kept of the rest is kept behind the event, unless the event itself is refused.
    have hkeep {kept : List Event} (h : kept <+: log) : event :: kept <+: event :: log :=
      List.cons_prefix_cons.2 ⟨rfl, h⟩
    cases event with
    | block block =>
      rw [writeLog] at h
      split at h
      · rename_i made hmade
        obtain ⟨kept, hprefix, hall, hwrote⟩ := ih h
        exact ⟨_, hkeep hprefix, fun hnone => by rw [hall hnone],
          hwrote.block (Block.writes_of_write hmade)⟩
      · cases h
        exact ⟨[], List.nil_prefix, by simp, .nothing source _⟩
    | edge edge =>
      rw [writeLog] at h
      obtain ⟨kept, hprefix, hall, hwrote⟩ := ih h
      exact ⟨_, hkeep hprefix, fun hnone => by rw [hall hnone], hwrote.edge⟩
    | cut node =>
      rw [writeLog] at h
      split at h
      · obtain ⟨kept, hprefix, hall, hwrote⟩ := ih h
        exact ⟨_, hkeep hprefix, fun hnone => by rw [hall hnone], hwrote.cut⟩
      · cases h
        exact ⟨[], List.nil_prefix, by simp, .nothing source _⟩
    | failed fault =>
      cases h
      exact ⟨[], List.nil_prefix, by simp, .nothing source _⟩

/-- What blocks that were written take over from their drafts can be read off
the drafts. -/
theorem map_of_writes {β : Type} {ofMade : Flowchart.Block → β} {ofDrawn : Block → β}
    (hread : ∀ {drawn made}, drawn.Writes made → ofMade made = ofDrawn drawn)
    {drawn : List Block} {made : List Flowchart.Block} (h : List.Forall₂ Block.Writes drawn made) :
    made.map ofMade = drawn.map ofDrawn := by
  induction h with
  | nil => rfl
  | cons hwrites _ ih => rw [List.map_cons, List.map_cons, hread hwrites, ih]

/-- The ids of blocks that were written are those of the numbers of their
drafts. -/
theorem ids_of_writes {drawn : List Block} {made : List Flowchart.Block}
    (h : List.Forall₂ Block.Writes drawn made) :
    made.map Flowchart.Block.id = drawn.map fun block => idOf block.number :=
  map_of_writes (fun hwrites => hwrites.id) h

/-- Blocks are written with the kinds that they were drafted with. -/
theorem kinds_of_writes {drawn : List Block} {made : List Flowchart.Block}
    (h : List.Forall₂ Block.Writes drawn made) :
    made.map Flowchart.Block.kind = drawn.map Block.kind :=
  map_of_writes (fun hwrites => hwrites.kind) h

/-- Where two lists go together item by item, an item of the second goes with one
of the first. -/
theorem exists_of_forall₂ {α β : Type} {R : α → β → Prop} {xs : List α} {ys : List β}
    (h : List.Forall₂ R xs ys) {y : β} (hy : y ∈ ys) : ∃ x ∈ xs, R x y := by
  induction h with
  | nil => cases hy
  | cons hR _ ih =>
    rcases List.mem_cons.1 hy with rfl | hy
    · exact ⟨_, List.mem_cons_self, hR⟩
    · obtain ⟨x, hx, hR⟩ := ih hy
      exact ⟨x, List.mem_cons_of_mem _ hx, hR⟩

/-- A block that was written was drawn. -/
theorem exists_drawn_of_writes {drawn : List Block} {made : List Flowchart.Block}
    (h : List.Forall₂ Block.Writes drawn made) {block : Flowchart.Block} (hblock : block ∈ made) :
    ∃ origin ∈ drawn, origin.Writes block :=
  exists_of_forall₂ h hblock

end Draft

namespace Builder

/-- A build writes the log of the draft up to a fault, or all of it, and then
puts an entry in front if one is needed. -/
theorem build_cases (builder : Builder) (tree : SyntaxTree) :
    ∃ written,
      (∃ fault kept,
        kept <+: (Draft.draft builder.table (builder.table.mark tree)).draft.log.toList ∧
        Draft.Wrote builder.source .nothing written kept ∧
        builder.build tree = (builder.holding written.graph, .error fault)) ∨
      ∃ notices,
        Draft.Wrote builder.source .nothing written
          (Draft.draft builder.table (builder.table.mark tree)).draft.log.toList ∧
        builder.build tree =
          (builder.holding (promoted builder.source
            (Draft.draft builder.table (builder.table.mark tree)) written.graph),
          .ok ((promoted builder.source
            (Draft.draft builder.table (builder.table.mark tree)) written.graph).distinct,
            notices)) := by
  cases hmark : builder.table.markRefusal? (builder.table.mark tree) with
  | some kind =>
    -- A kind that cannot be looked up stops the build before anything is written.
    refine ⟨.nothing, .inl ⟨.notKey kind.kind, [], List.nil_prefix, .nothing _ _, ?_⟩⟩
    simp only [build, hmark]
    rfl
  | none =>
    simp only [build, hmark]
    split
    · rename_i written fault hwritten
      obtain ⟨kept, hprefix, _, hwrote⟩ := Draft.writeLog_kept hwritten
      exact ⟨written, .inl ⟨fault, kept, hprefix, hwrote, rfl⟩⟩
    · rename_i written hwritten
      obtain ⟨kept, _, hall, hwrote⟩ := Draft.writeLog_kept hwritten
      exact ⟨written, .inr ⟨_, hall rfl ▸ hwrote, rfl⟩⟩

/-- What was written of a whole draft, with the entry in front. -/
theorem writes_promoted {source : Source} {result : Draft.Result} {written : Draft.Written}
    (h : Draft.Wrote source .nothing written result.draft.log.toList) :
    List.Forall₂ Draft.Block.Writes result.blocks
        (promoted source result written.graph).blocks ∧
      (promoted source result written.graph).edges =
        result.edges.map (Draft.Edge.write source) := by
  obtain ⟨⟨made, hblocks, hwrites⟩, hedges⟩ := h
  simp only [Draft.Written.nothing, List.nil_append] at hblocks hedges
  constructor
  -- The label of an entry is a fixed text, so it is never cut.
  · have hentry : List.Forall₂ Draft.Block.Writes result.entry?.toList
        (result.entry?.map (Draft.Block.writeWithin source 0)).toList := by
      cases result.entry? with
      | none => exact .nil
      | some entry =>
        exact .cons (Draft.Block.writes_of_write (Draft.write_shortenBy_int _ _ _)) .nil
    simp only [promoted, Draft.Written.graph, hblocks]
    exact List.rel_append hentry hwrites
  · simp [promoted, Draft.Written.graph, hedges, Draft.Result.edges, Draft.edges,
      Option.toList_map]

variable {builder : Builder} {tree : SyntaxTree} {graph : Graph} {notices : List Notice}

/-- The blocks of a graph that was built are those of its draft. -/
theorem blocks_of_build (h : (builder.build tree).2 = .ok (graph, notices)) :
    List.Forall₂ Draft.Block.Writes
      (Draft.draft builder.table (builder.table.mark tree)).blocks graph.blocks := by
  obtain ⟨written, ⟨_, _, _, _, hbuild⟩ | ⟨_, hwrote, hbuild⟩⟩ := builder.build_cases tree <;>
    rw [hbuild] at h <;> cases h
  exact (writes_promoted hwrote).1

/-- The edges of a graph that was built are those of its draft. -/
theorem edges_of_build (h : (builder.build tree).2 = .ok (graph, notices)) :
    graph.edges = Edge.distinct
      ((Draft.draft builder.table (builder.table.mark tree)).edges.map
        (Draft.Edge.write builder.source)) := by
  obtain ⟨written, ⟨_, _, _, _, hbuild⟩ | ⟨_, hwrote, hbuild⟩⟩ := builder.build_cases tree <;>
    rw [hbuild] at h <;> cases h
  rw [Graph.distinct, (writes_promoted hwrote).2]

/-- An edge of a graph that was built was drawn in its draft. -/
theorem exists_drawn (h : (builder.build tree).2 = .ok (graph, notices)) {edge : Edge}
    (hedge : edge ∈ graph.edges) :
    ∃ drawn ∈ (Draft.draft builder.table (builder.table.mark tree)).edges,
      edge = drawn.write builder.source := by
  rw [edges_of_build h] at hedge
  obtain ⟨drawn, hdrawn, hwrite⟩ := List.mem_map.1 (Edge.mem_of_mem_distinct hedge)
  exact ⟨drawn, hdrawn, hwrite.symm⟩

end Builder

end Flowchart
