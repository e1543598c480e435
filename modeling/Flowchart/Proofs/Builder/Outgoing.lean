import Flowchart.Proofs.Builder.Simple
import Flowchart.Proofs.Outline.Constructs
import Flowchart.Proofs.Outline.Results

/-!
# `Flowchart.Proofs.Builder.Outgoing`: how many ways lead out of a block

What leads out of a block of a graph depends on what the block stands for. A
terminator leads nowhere, and a statement, an entry and the end of a function
lead to one block at most. A loop leads into its body and behind itself, a
branch into its two parts, or into one of them and behind itself. A choice
leads into each arm that built something, and behind itself only if no arm
leads on.

Of these edges, a construct draws those into its parts. The one behind it is
drawn far away, by whatever takes the exits of what the construct lies in,
and there is one at most.

* `Graph.outgoing`: the edges out of a block;
* `drawnFor_of_build`: a block of a graph, its construct and its outgoing
  edges;
* `Disciplined`, `disciplined_of_build`: what leads out of a block of each
  kind.
-/

set_option autoImplicit false

namespace Flowchart

/-- The edges out of the block with an id, in order. -/
def Graph.outgoing (graph : Graph) (id : Text) : List Edge :=
  graph.edges.filter fun edge => edge.source = id

/-- The edges that show a label, in order. -/
def Edge.labelled (label : Text) (edges : List Edge) : List Edge :=
  edges.filter fun edge => edge.label = some label

namespace Draft

variable {table : KindTable} {tree : MarkedTree} {n : Nat}

/-- Out of a block of the outline of a tree lead the edges of the outline. -/
theorem outgoing_draft {whole : Outline}
    (hwhole : outline table (rootRequest table tree) = some whole) (hn : whole.Covers 0 n) :
    outgoing (draft table tree).edges n = outgoing (whole.edges 0) n := by
  have hedges : (draft table tree).draft.edges = whole.edges 0 := by
    rw [edges_draft, hwhole]
    rfl
  by_cases hentry : NeedsEntry table tree
  · have hnext : (draft table tree).draft.next = whole.size := by
      rw [next_draft, hwhole]
      rfl
    have hne : (draft table tree).draft.next ≠ n := by
      unfold Outline.Covers at hn
      omega
    rw [edges_of_needsEntry hentry, outgoing_append, outgoing_cons_of_ne hne, outgoing_nil,
      List.append_nil, hedges]
  · rw [edges_of_not_needsEntry hentry, hedges]

/-- Out of an entry of its own leads the edge to the first block. -/
theorem outgoing_entry (h : NeedsEntry table tree) :
    outgoing (draft table tree).edges (draft table tree).draft.next =
      [⟨(draft table tree).draft.next, 0, .onward⟩] := by
  have hothers : outgoing (draft table tree).draft.edges (draft table tree).draft.next = [] :=
    outgoing_eq_nil fun edge hedge => Nat.ne_of_lt (ends_lt_next hedge).1
  rw [edges_of_needsEntry h, outgoing_append, hothers, List.nil_append]
  exact List.filter_cons_of_pos (by simp)

end Draft

namespace Builder

open Draft Outline

section

variable {builder : Builder} {tree : SyntaxTree} {graph : Graph} {notices : List Notice}

/-! ### The edges out of a block -/

/-- The edges out of a block are those that were drawn out of its number. -/
theorem outgoing_of_build (h : (builder.build tree).2 = .ok (graph, notices)) (n : Nat) :
    graph.outgoing (idOf n) =
      (Draft.outgoing (draft builder.table (builder.table.mark tree)).edges n).map
        (Draft.Edge.write builder.source) := by
  rw [Graph.outgoing, edges_eq_of_build h, List.filter_map, Draft.outgoing]
  congr 2
  funext edge
  simp [Draft.Edge.write, idOf_inj]

/-- A block of a graph that was drawn for a construct, and the edges out of
it: those that its construct draws, and those that are drawn around it. -/
structure DrawnFor (builder : Builder) (tree : SyntaxTree) (graph : Graph) (block : Block)
    (whole : Outline) (drawn : Draft.Block) (p : Nat × Outline) (led : List Draft.Edge) :
    Prop where
  root : outline builder.table (rootRequest builder.table (builder.table.mark tree)) = some whole
  writes : drawn.Writes block
  stands : Stands (0, whole) drawn p led
  outgoing : graph.outgoing block.id =
    (Draft.outgoing (p.2.edges p.1) drawn.number ++ led).map (Draft.Edge.write builder.source)

/-- A block of a graph that was built is an entry of its own, or was drawn for
a construct. -/
theorem drawnFor_of_build (h : (builder.build tree).2 = .ok (graph, notices)) {block : Block}
    (hblock : block ∈ graph.blocks) :
    (NeedsEntry builder.table (builder.table.mark tree) ∧ block.kind = .entry ∧
      block.id = idOf (draft builder.table (builder.table.mark tree)).draft.next) ∨
    ∃ whole drawn p led, DrawnFor builder tree graph block whole drawn p led := by
  obtain ⟨drawn, hdrawn, hwrites⟩ := exists_drawn_of_writes (blocks_of_build h) hblock
  -- A block that was drafted belongs to a construct of the outline, an entry of its own does not.
  have hcases : (NeedsEntry builder.table (builder.table.mark tree) ∧ drawn.kind = .entry ∧
      drawn.number = (draft builder.table (builder.table.mark tree)).draft.next) ∨
      drawn ∈ (draft builder.table (builder.table.mark tree)).draft.blocks := by
    by_cases hentry : NeedsEntry builder.table (builder.table.mark tree)
    · rw [blocks_of_needsEntry hentry] at hdrawn
      rcases List.mem_cons.1 hdrawn with rfl | hdrawn
      · exact .inl ⟨hentry, rfl, rfl⟩
      · exact .inr hdrawn
    · exact .inr (blocks_of_not_needsEntry hentry ▸ hdrawn)
  rcases hcases with ⟨hentry, hkind, hnumber⟩ | hdrawn
  · exact .inl ⟨hentry, hwrites.kind.trans hkind, hnumber ▸ hwrites.id⟩
  · right
    rw [blocks_draft] at hdrawn
    cases hwhole : outline builder.table (rootRequest builder.table (builder.table.mark tree)) with
    | none =>
      rw [hwhole] at hdrawn
      cases hdrawn
    | some whole =>
      rw [hwhole] at hdrawn
      obtain ⟨p, led, hstands⟩ := exists_stands hdrawn
      refine ⟨whole, drawn, p, led, hwhole, hwrites, hstands, ?_⟩
      rw [hwrites.id, outgoing_of_build h, outgoing_draft hwhole (covers_of_mem_blocks hdrawn),
        hstands.outgoing]

/-! ### What leads out of blocks of each kind -/

/-- What leads out of a choice: an edge into each arm that gives a fragment,
in the order of the arms, and one more only where no arm has an exit. -/
structure LeavesChoice (builder : Builder) (tree : SyntaxTree) (graph : Graph) (block : Block)
    (r : Request) (d : Draft) (arms further : List Draft.Edge) : Prop where
  served : Served builder.table (builder.table.mark tree) r d
  mode : r.mode = .visit
  category : builder.table.category? r.tree.label.kind = some .choice
  id : block.id = idOf d.next
  path : block.path = Path.text r.path
  outgoing : graph.outgoing block.id = (arms ++ further).map (Draft.Edge.write builder.source)
  arms : List.Forall₂ (Enters d.next) arms
    ((r.results builder.table d).filter fun p => p.2.isSome)
  once : further.length ≤ 1
  onward : further ≠ [] → ∀ p ∈ r.results builder.table d, ∀ fragment ∈ p.2, fragment.exits = []

/-- What leads out of a block, by its kind. -/
def Disciplined (builder : Builder) (tree : SyntaxTree) (graph : Graph) (block : Block) : Prop :=
  match block.kind with
  | .terminator => graph.outgoing block.id = []
  | .statement | .entry | .exit => (graph.outgoing block.id).length ≤ 1
  | .loop =>
    (graph.outgoing block.id).length ≤ 2 ∧
      (Edge.labelled "body" (graph.outgoing block.id)).length ≤ 1
  | .branch =>
    (graph.outgoing block.id).length ≤ 2 ∧
      (Edge.labelled "true" (graph.outgoing block.id)).length ≤ 1 ∧
      (Edge.labelled "false" (graph.outgoing block.id)).length ≤ 1
  | .choice => ∃ r d arms further, LeavesChoice builder tree graph block r d arms further

/-- What is drawn around a construct shows no label of a way into a part. -/
theorem labelled_led {led : List Draft.Edge}
    (hflow : ∀ edge ∈ led, edge.flow = .onward ∨ edge.flow = .next) {label : Text}
    (hlabel : label ≠ "next") (source : Source) :
    Edge.labelled label (led.map (Draft.Edge.write source)) = [] := by
  refine List.filter_eq_nil_iff.2 fun edge hedge => ?_
  obtain ⟨drawn, hdrawn, rfl⟩ := List.mem_map.1 hedge
  rcases hflow drawn hdrawn with hflow | hflow <;>
    simp [Draft.Edge.write, hflow, Flow.label, Ne.symm hlabel]

section

variable {block : Block} {whole : Outline} {drawn : Draft.Block} {led : List Draft.Edge}

/-- The edges out of a block that show the label of a way into a part are
drawn by its construct. -/
theorem DrawnFor.labelled {p : Nat × Outline}
    (h : DrawnFor builder tree graph block whole drawn p led) {label : Text}
    (hlabel : label ≠ "next") :
    Edge.labelled label (graph.outgoing block.id) =
      Edge.labelled label
        ((Draft.outgoing (p.2.edges p.1) drawn.number).map (Draft.Edge.write builder.source)) := by
  have hled := labelled_led (fun edge hedge => h.stands.continues.flow hedge) hlabel builder.source
  rw [h.outgoing, List.map_append, Edge.labelled, List.filter_append]
  rw [Edge.labelled] at hled
  rw [hled, List.append_nil]
  rfl

/-- One of the edges into the parts of a branch is for the first outcome, and
one for the second. -/
theorem labelled_branch (body alternative : Option Outline) (header a : Nat) (source : Source) :
    (Edge.labelled "true" ((entries header (side .whenTrue body ++ side .whenFalse alternative)
      a).map (Draft.Edge.write source))).length ≤ 1 ∧
    (Edge.labelled "false" ((entries header (side .whenTrue body ++ side .whenFalse alternative)
      a).map (Draft.Edge.write source))).length ≤ 1 := by
  have hne : ("true" : Text) ≠ "false" := by decide
  cases body <;> cases alternative <;>
    simp [side, entries, Edge.labelled, Draft.Edge.write, Flow.label, hne, hne.symm]

/-- What leads out of the header of a choice. -/
theorem DrawnFor.leavesChoice {a : Nat} {origin : Origin} {arms : List (Flow × Outline)}
    (h : DrawnFor builder tree graph block whole (origin.block .choice a) (a, .choice origin arms)
      led) :
    ∃ r d arms further, LeavesChoice builder tree graph block r d arms further := by
  -- The choice was served as a request of its own, and its arms are what the parts built.
  obtain ⟨r, d, hserved, hmode, hcategory, hchoice, hnext⟩ :=
    exists_served h.root h.stands.within rfl
  obtain rfl : d.next = a := hnext
  obtain ⟨rfl, hbuilt⟩ := Outline.choice.inj
    (Option.some.inj ((outline_choice hmode hcategory).symm.trans hchoice))
  have hresults := results_choice hmode hcategory d
  have harms : ∀ p ∈ (r.parts builder.table).map fun p => (p.1, Draft.outline builder.table p.2),
      ∃ index names, p.1 = .arm index names := by
    intro p hp
    obtain ⟨q, hq, rfl⟩ := List.mem_map.1 hp
    exact parts_choice hmode hcategory hq
  obtain ⟨headed, _⟩ := bare_of_mem_bareBlocks h.stands.bare
  refine ⟨r, d, entries d.next arms (d.next + 1), led, hserved, hmode, hcategory, h.writes.id,
    h.writes.path, ?_, ?_, h.stands.continues.length_le, ?_⟩
  · have hdrawn := headed.outgoing_header (a := d.next)
    exact hdrawn ▸ h.outgoing
  · exact forall₂_entries_choice hmode hcategory hchoice d
  · intro hled p hp fragment hfragment
    rw [hresults] at hp
    have hnone := armsExits_eq_nil h.stands.continues hled
    refine List.eq_nil_iff_forall_not_mem.2 fun n hn => ?_
    have hexit := mem_armsExits_of_fragments harms hp hfragment hn
    rw [hbuilt, hnone] at hexit
    cases hexit

/-- The entry of a function leads into its body, and the function is left from
its end. -/
theorem DrawnFor.length_function_le {a : Nat} {origin : Origin} {body : Outline}
    (h : DrawnFor builder tree graph block whole drawn (a, .function origin (some body)) led) :
    (graph.outgoing block.id).length ≤ 1 := by
  have hbare := h.stands.bare
  obtain ⟨headed, hnumber⟩ := bare_of_mem_bareBlocks hbare
  rw [h.outgoing, List.length_map]
  rcases List.mem_cons.1 hbare with rfl | hend
  -- The entry leads on to the body only, and it is no exit unless there is none.
  · have hexit : a ∉ (Outline.function origin (some body)).exits a := by
      simp only [exits, List.mem_singleton]
      omega
    have hdrawn := headed.outgoing_header (a := a)
    rw [h.stands.continues.eq_nil hexit, List.append_nil]
    exact Nat.le_of_eq (congrArg List.length hdrawn)
  -- Nothing is drawn from the last block inside the function.
  · obtain rfl := List.mem_singleton.1 hend
    have hne : a + 1 + body.size ≠ a := by omega
    have hdrawn := headed.outgoing_of_ne hnumber hne
    rw [hdrawn]
    exact h.stands.continues.length_le

/-- The header of a branch leads to two blocks at most, and once at most for each
outcome. -/
theorem DrawnFor.branch_le {a : Nat} {origin : Origin} {hasAlternative : Bool}
    {body alternative : Option Outline}
    (h : DrawnFor builder tree graph block whole (origin.block .branch a)
      (a, .branch origin hasAlternative body alternative) led) :
    (graph.outgoing block.id).length ≤ 2 ∧
      (Edge.labelled "true" (graph.outgoing block.id)).length ≤ 1 ∧
      (Edge.labelled "false" (graph.outgoing block.id)).length ≤ 1 := by
  obtain ⟨headed, _⟩ := bare_of_mem_bareBlocks h.stands.bare
  have hdrawn := headed.outgoing_header (a := a)
  obtain ⟨htrue, hfalse⟩ := labelled_branch body alternative a (a + 1) builder.source
  refine ⟨?_, ?_, ?_⟩
  · rw [h.outgoing, List.length_map, List.length_append]
    exact hdrawn ▸ length_branch_le h.stands.continues
  · rw [h.labelled (by decide)]
    exact hdrawn ▸ htrue
  · rw [h.labelled (by decide)]
    exact hdrawn ▸ hfalse

/-- The header of a loop leads to two blocks at most, and into the body once at most. -/
theorem DrawnFor.loop_le {a : Nat} {origin : Origin} {body : Option Outline}
    (h : DrawnFor builder tree graph block whole (origin.block .loop a) (a, .loop origin body)
      led) :
    (graph.outgoing block.id).length ≤ 2 ∧
      (Edge.labelled "body" (graph.outgoing block.id)).length ≤ 1 := by
  obtain ⟨headed, _⟩ := bare_of_mem_bareBlocks h.stands.bare
  have hlength : (Draft.outgoing ((Outline.loop origin body).edges a) a).length ≤ 1 := by
    rw [headed.outgoing_header (a := a)]
    cases body <;> simp [Outline.arms, side, entries]
  refine ⟨?_, ?_⟩
  · rw [h.outgoing, List.length_map, List.length_append]
    exact Nat.add_le_add hlength h.stands.continues.length_le
  -- What is drawn around the loop bears no such label.
  · rw [h.labelled (by decide)]
    refine (List.length_filter_le _ _).trans ?_
    rw [List.length_map]
    exact hlength

/-- What leads out of a block that was drawn for a construct. -/
theorem DrawnFor.disciplined {p : Nat × Outline}
    (h : DrawnFor builder tree graph block whole drawn p led) :
    Disciplined builder tree graph block := by
  obtain ⟨a, outline⟩ := p
  have hbare := h.stands.bare
  have hled := h.stands.continues.length_le
  unfold Disciplined
  rw [h.writes.kind]
  -- The construct decides: its own edges out of the block, and one more around it at most.
  cases outline with
  | sequel _ _ => cases hbare
  | statement origin =>
    obtain rfl := List.mem_singleton.1 hbare
    show (graph.outgoing block.id).length ≤ 1
    rw [h.outgoing]
    simpa [Outline.edges] using hled
  | terminator origin =>
    obtain rfl := List.mem_singleton.1 hbare
    show graph.outgoing block.id = []
    rw [h.outgoing, h.stands.continues.eq_nil List.not_mem_nil]
    rfl
  | branch origin hasAlternative body alternative =>
    obtain rfl := List.mem_singleton.1 hbare
    exact h.branch_le
  | loop origin body =>
    obtain rfl := List.mem_singleton.1 hbare
    exact h.loop_le
  | choice origin arms =>
    obtain rfl := List.mem_singleton.1 hbare
    exact h.leavesChoice
  | function origin body =>
    cases body with
    | none =>
      obtain rfl := List.mem_singleton.1 hbare
      show (graph.outgoing block.id).length ≤ 1
      rw [h.outgoing]
      simpa [Outline.edges] using hled
    | some body =>
      -- The entry and the last block of a function keep to the same bound.
      have hlength := h.length_function_le
      rcases List.mem_cons.1 hbare with rfl | hbare
      · exact hlength
      · obtain rfl := List.mem_singleton.1 hbare
        exact hlength

end

/-- In a graph that was built, a terminator leads nowhere; a statement, an
entry and the end of a function lead to one block at most. A loop leads to two
at most, and into its body once at most; a branch leads to two at most, once
at most for each outcome. A choice leads into each of its arms that gave a
fragment, in order, and to one block more only where none of the fragments has
an exit. -/
theorem disciplined_of_build (h : (builder.build tree).2 = .ok (graph, notices)) :
    ∀ block ∈ graph.blocks, Disciplined builder tree graph block := by
  intro block hblock
  rcases drawnFor_of_build h hblock with ⟨hentry, hkind, hid⟩ | ⟨whole, drawn, p, led, hdrawn⟩
  · have houtgoing := outgoing_of_build h (draft builder.table (builder.table.mark tree)).draft.next
    rw [← hid, outgoing_entry hentry] at houtgoing
    unfold Disciplined
    rw [hkind]
    show (graph.outgoing block.id).length ≤ 1
    rw [houtgoing]
    exact Nat.le_refl 1
  · exact hdrawn.disciplined

end

namespace Sample

/-- A builder that knows one kind of choice, of arm and of terminator. -/
def chooser : Builder :=
  .new ⟨.empty⟩ (.ofRoles fun
    | .choices => KindSet.ofList [.text "match"]
    | .arms => KindSet.ofList [.text "case"]
    | .terminators => KindSet.ofList [.text "return"]
    | _ => ∅) (.int 40)

/-- A choice between an arm that returns, one of nothing, and another one that
returns, in front of a statement. -/
def choosing : SyntaxTree :=
  .node (Draft.Sample.node "all") [.node (Draft.Sample.node "match")
    [.node (Draft.Sample.node "case") [.node (Draft.Sample.node "return") []],
      .node (Draft.Sample.node "case") [],
      .node (Draft.Sample.node "case") [.node (Draft.Sample.node "return") []]],
    .node (Draft.Sample.node "call") []]

/-- The block of the choice. -/
def choiceBlock : Block :=
  { block "cfg_0" "match" .choice "root-0" with statements := [""] }

/-- Its graph. -/
def choiceGraph : Graph where
  blocks :=
    [block "cfg_4" "entry" .entry "root", choiceBlock,
      block "cfg_1" "" .terminator "root-0-arm0-0", block "cfg_2" "" .terminator "root-0-arm2-0",
      block "cfg_3" "" .statement "root-1"]
  edges :=
    [⟨"cfg_0", "cfg_1", some "arm 0"⟩, ⟨"cfg_0", "cfg_2", some "arm 2"⟩, ⟨"cfg_0", "cfg_3", none⟩,
      ⟨"cfg_4", "cfg_0", none⟩]

/-- What is built of the choice. -/
theorem build_choosing :
    (chooser.build choosing).2 =
      .ok (choiceGraph, [.entryPromoted "cfg_4" "cfg_0", .graphBuilt 5 4]) := by
  decide +kernel

end Sample

/-- Three edges lead out of the choice of the sample: into the two arms that
gave a fragment and, since both return, to the statement behind it. Nothing
leads out of what returns. -/
theorem disciplined_of_build_choosing :
    (Sample.chooser.build Sample.choosing).2 =
        .ok (Sample.choiceGraph, [.entryPromoted "cfg_4" "cfg_0", .graphBuilt 5 4]) ∧
      (Sample.choiceGraph.outgoing "cfg_0").length = 3 ∧
      (∃ r d arms further, LeavesChoice Sample.chooser Sample.choosing Sample.choiceGraph
        Sample.choiceBlock r d arms further) ∧
      Sample.choiceGraph.outgoing "cfg_1" = [] := by
  have hblocks := disciplined_of_build Sample.build_choosing
  exact ⟨Sample.build_choosing, by cbv, hblocks Sample.choiceBlock (by simp [Sample.choiceGraph]),
    hblocks (Sample.block "cfg_1" "" .terminator "root-0-arm0-0") (by simp [Sample.choiceGraph])⟩

end Builder

end Flowchart
