import Flowchart.Proofs.Builder.Labels
import Flowchart.Proofs.Builder.Outgoing

/-!
# `Flowchart.Proofs.Builder.Arms`: the labels of arms

An edge from a choice into an arm shows what the named children of the arm start
with, or the number of the arm where they say nothing. It is only asked once
whether they say nothing, before what they say is trimmed for the last time. Two
children that say nothing leave a blank between them, so the number is not
shown, and then the blank is trimmed off.

So the way into an arm shows no label if and only if the arm has two named
children or more, and all of them say nothing. In JSON such an edge looks like
one to what comes next.

* `label_arm_eq_nil_iff`: when the label of an arm is empty;
* `EntersArm`, `entersArm_iff`: the edges from choices into arms are those that
  are drawn for an arm;
* `labelled_of_build`: which edges of a graph show the label of an arm.
-/

set_option autoImplicit false

namespace Flowchart

open Text

/-- What the named children of a node say of themselves. -/
def MarkedTree.infos (t : MarkedTree) : List NodeInfo :=
  t.namedChildren.map fun name => name.label.toNodeInfo

/-- There are two nodes or more, and nothing but blanks is in the first line of
any of them. -/
structure Mute (source : Source) (names : List NodeInfo) : Prop where
  several : 2 ≤ names.length
  blank : ∀ name ∈ names, headline (source.textOf name) = []

namespace Draft

/-- The number of an arm says something. -/
theorem shorten_number_ne_nil (index : Nat) :
    shorten 24 ("arm " ++ toString index) ≠ [] := by
  intro h
  rw [shorten_eq_nil_iff (by decide), headline_eq_nil_iff] at h
  have hmem : CodePoint.ofChar 'a' ∈ firstLine ("arm " ++ toString index) := List.mem_cons_self
  have hblank := h _ hmem
  revert hblank
  decide

/-- The label of an arm is empty only if the arm has several names that say
nothing. -/
theorem label_arm_eq_nil_iff (source : Source) (index : Nat) (names : List NodeInfo) :
    Flow.label source (.arm index names) = some [] ↔ Mute source names := by
  let texts := names.map fun name => shorten 20 (source.textOf name)
  have hempty : (∀ text ∈ texts, text = []) ↔
      ∀ name ∈ names, headline (source.textOf name) = [] := by
    simp only [texts, List.forall_mem_map, shorten_eq_nil_iff (n := 20) (by decide)]
  have hnil : joined " " texts = [] ↔ names.length ≤ 1 ∧ ∀ text ∈ texts, text = [] := by
    rw [joined_eq_nil_iff (by decide), List.length_map]
  have hlabel : Flow.label source (.arm index names) = some (shorten 24
      (if (joined " " texts).isEmpty then "arm " ++ toString index else joined " " texts)) := rfl
  rw [hlabel, Option.some_inj]
  by_cases hjoined : joined " " texts = []
  · rw [hjoined]
    refine iff_of_false (shorten_number_ne_nil index) fun hmute => ?_
    have hseveral := hmute.several
    have hfew := (hnil.1 hjoined).1
    omega
  · rw [if_neg (by simpa using hjoined), shorten_eq_nil_iff (by decide), headline_eq_nil_iff]
    -- What is joined is a line, and is blank where all its parts are.
    have hline : IsLine (joined " " texts) :=
      isLine_joined (by decide) (by simp [texts, isLine_shorten])
    have hblank : Blank (joined " " texts) ↔ ∀ text ∈ texts, text = [] := by
      rw [blank_joined_iff blank_space]
      simp only [texts, List.forall_mem_map, blank_shorten_iff]
    rw [firstLine_eq_self hline, hblank, hempty]
    refine ⟨fun h => ⟨?_, h⟩, Mute.blank⟩
    exact Nat.lt_of_not_le fun hfew => hjoined (hnil.2 ⟨hfew, hempty.2 h⟩)

/-! ### The edges into arms -/

section

open Outline

variable {table : KindTable} {tree : MarkedTree} {edge : Edge}

/-- An edge leads from a choice into an arm of it. -/
inductive EntersArm (table : KindTable) (tree : MarkedTree) : Edge → MarkedTree → Prop where
  | enter {r : Request} {d : Draft} {index : Nat} {arm : MarkedTree} {fragment : Fragment}
      (served : Served table tree r d) (mode : r.mode = .visit)
      (category : table.category? r.tree.label.kind = some .choice)
      (found : (r.tree.arms table)[index]? = some arm)
      (gives : (.arm index arm.infos, some fragment) ∈ r.results table d) :
      EntersArm table tree ⟨d.next, fragment.entry, .arm index arm.infos⟩ arm

/-- An edge into an arm has the flow of that arm. -/
theorem flow_of_mem_entries {header a : Nat} {arms : List (Flow × Outline)}
    (h : edge ∈ entries header arms a) : ∃ arm ∈ arms, arm.1 = edge.flow := by
  induction arms generalizing a with
  | nil => cases h
  | cons arm arms ih =>
    rcases List.mem_cons.1 h with rfl | h
    · exact ⟨arm, List.mem_cons_self, rfl⟩
    · obtain ⟨other, hother, hflow⟩ := ih h
      exact ⟨other, List.mem_cons_of_mem arm hother, hflow⟩

/-- Only a choice has arms of its own. -/
theorem choice_of_entry {outline : Outline} {a index : Nat} {names : List NodeInfo}
    (h : edge ∈ entries a outline.arms (a + 1)) (hflow : edge.flow = .arm index names) :
    ∃ origin arms, outline = .choice origin arms := by
  obtain ⟨arm, harm, harmFlow⟩ := flow_of_mem_entries h
  have hside : ∀ {flow : Flow} {part : Option Outline},
      arm ∈ side flow part → flow = edge.flow := by
    intro flow part hmem
    obtain ⟨_, _, rfl⟩ := Option.map_eq_some_iff.1 (Option.mem_toList.1 hmem)
    exact harmFlow
  -- Sides are entered along flows of their own, none of which is that of an arm.
  rw [hflow] at hside
  cases outline with
  | choice origin arms => exact ⟨origin, arms, rfl⟩
  | statement _ | terminator _ | sequel _ _ => cases harm
  | loop _ body => cases hside harm
  | function _ body => cases hside harm
  | branch _ _ body alternative =>
    rcases List.mem_append.1 harm with harm | harm <;> cases hside harm

/-- An edge that leads into an arm is drawn. -/
theorem EntersArm.mem_edges {arm : MarkedTree} (h : EntersArm table tree edge arm) :
    edge ∈ (draft table tree).edges := by
  obtain ⟨hserved, hmode, hcategory, _, hgives⟩ := h
  have hchoice := outline_choice hmode hcategory
  obtain ⟨whole, hwhole, hwithin⟩ := hserved.within hchoice
  obtain ⟨entry, hentry, henters⟩ := exists_of_forall₂
    (forall₂_entries_choice hmode hcategory hchoice _) (List.mem_filter.2 ⟨hgives, rfl⟩)
  cases henters
  rw [mem_edges_draft, hwhole]
  exact .inl (hwithin.mem_edges ((Outline.sequel_or_headed _).resolve_left nofun) hentry)

/-- An edge from a choice to what one of its arms became leads into that arm. -/
theorem exists_entersArm_of_entry {r : Request} {d : Draft} {origin : Origin}
    {arms : List (Flow × Outline)} (hserved : Served table tree r d) (hmode : r.mode = .visit)
    (hcategory : table.category? r.tree.label.kind = some .choice)
    (hchoice : outline table r = some (.choice origin arms))
    (hentry : edge ∈ entries d.next arms (d.next + 1)) :
    ∃ arm, EntersArm table tree edge arm := by
  obtain ⟨⟨part, result⟩, hgives, henters⟩ := exists_of_forall₂
    (forall₂_entries_choice hmode hcategory hchoice d).flip hentry
  obtain ⟨hgives, _⟩ := List.mem_filter.1 hgives
  obtain ⟨i, ns, fragment⟩ := henters
  -- The arm is found by its number among the arms of the node.
  obtain ⟨q, hq⟩ := mem_parts_of_results hgives
  simp only [Request.parts, hmode, hcategory] at hq
  obtain ⟨⟨arm, j⟩, hfound, hpart⟩ := List.mem_map.1 hq
  cases hpart
  exact ⟨arm, .enter hserved hmode hcategory (List.mem_zipIdx_iff_getElem?.1 hfound) hgives⟩

/-- The edges into arms are those that are drawn as such. -/
theorem entersArm_iff :
    (∃ arm, EntersArm table tree edge arm) ↔
      edge ∈ (draft table tree).edges ∧ ∃ index names, edge.flow = .arm index names := by
  constructor
  · rintro ⟨arm, henters⟩
    refine ⟨henters.mem_edges, ?_⟩
    cases henters with
    | @enter _ _ index => exact ⟨index, arm.infos, rfl⟩
  · rintro ⟨hedge, index, names, hflow⟩
    -- The edge of an entry of the root is no arm's.
    rcases mem_edges_draft.1 hedge with hedge | ⟨_, rfl⟩
    · cases hwhole : outline table (rootRequest table tree) with
      | none =>
        rw [hwhole] at hedge
        cases hedge
      | some whole =>
        rw [hwhole] at hedge
        obtain ⟨⟨a, inner⟩, hwithin, hentry⟩ :=
          exists_entry hedge (by simp [hflow]) (by simp [hflow])
        obtain ⟨origin, arms, rfl⟩ := choice_of_entry hentry hflow
        obtain ⟨r, d, hserved, hmode, hcategory, hchoice, rfl⟩ := exists_served hwhole hwithin rfl
        exact exists_entersArm_of_entry hserved hmode hcategory hchoice hentry
    · cases hflow

end

end Draft

namespace Builder

open Draft

/-- How an edge into an arm is written. Its label is shown, unless the names of the
arm are mute: then the edge is written as one without a label is. -/
structure ShowsArm (source : Source) (names : List NodeInfo) (edge : Edge) : Prop where
  shown : ¬Mute source names → ∃ label ≠ [], edge.label = some label ∧
    edge.toJson = .object [("from", .string edge.source), ("to", .string edge.target),
      ("label", .string label)]
  hidden : Mute source names → edge.label = some [] ∧
    edge.toJson = ({ edge with label := none } : Edge).toJson

/-- An edge with a label is written in one of two ways. -/
theorem showsArm_of_label {source : Source} {names : List NodeInfo} {edge : Edge} {label : Text}
    (hlabel : edge.label = some label) (hmute : label = [] ↔ Mute source names) :
    ShowsArm source names edge := by
  obtain ⟨from', to', _⟩ := edge
  cases hlabel
  refine ⟨fun hshown => ⟨label, hmute.not.2 hshown, rfl, ?_⟩, fun hhidden => ?_⟩
  · have htruthy : (Json.string label).isTruthy = true := by
      simpa [Json.isTruthy] using hmute.not.2 hshown
    simp [Edge.toJson, Edge.sketch, Sketch.Edge.toJson, Sketch.Edge.shownLabel?, htruthy]
  · obtain rfl := hmute.2 hhidden
    exact ⟨rfl, rfl⟩

/-- In a graph that was built, each edge into an arm shows its label unless the arm
has several names that all say nothing, and no other edge has an empty label. -/
theorem labelled_of_build {builder : Builder} {tree : SyntaxTree} {graph : Graph}
    {notices : List Notice} (h : (builder.build tree).2 = .ok (graph, notices)) :
    (∀ drawn arm, EntersArm builder.table (builder.table.mark tree) drawn arm →
      drawn.write builder.source ∈ graph.edges ∧
        ShowsArm builder.source arm.infos (drawn.write builder.source)) ∧
    ∀ edge ∈ graph.edges, edge.label = some [] →
      ∃ drawn arm, EntersArm builder.table (builder.table.mark tree) drawn arm ∧
        Mute builder.source arm.infos ∧ edge = drawn.write builder.source := by
  constructor
  · intro drawn arm henters
    refine ⟨?_, ?_⟩
    · rw [edges_eq_of_build h]
      exact List.mem_map_of_mem henters.mem_edges
    · cases henters with
      | enter _ _ _ _ _ =>
        exact showsArm_of_label rfl (by rw [← label_arm_eq_nil_iff, Flow.label, Option.some_inj])
  · intro edge hedge hlabel
    obtain ⟨drawn, hdrawn, rfl⟩ := exists_drawn h hedge
    -- An empty label is that of an arm: every other flow has a fixed text or none.
    have hflow : ∃ index names, drawn.flow = .arm index names := by
      obtain ⟨_, _, flow⟩ := drawn
      cases flow with
      | arm index names => exact ⟨index, names, rfl⟩
      | onward | whenTrue | whenFalse | body | next => cases hlabel
    obtain ⟨arm, henters⟩ := entersArm_iff.2 ⟨hdrawn, hflow⟩
    refine ⟨drawn, arm, henters, ?_, rfl⟩
    cases henters with
    | enter _ _ _ _ _ => exact (label_arm_eq_nil_iff _ _ _).1 hlabel

namespace Sample

/-- A builder with the tables for the known grammars, for a source of one
character. -/
def teller : Builder :=
  .new ⟨"x".toUTF8⟩ .default (.int 40)

/-- A choice between an arm of two statements that cover nothing and an arm of one
that covers the source. -/
def silent : SyntaxTree :=
  covering "program" 0 1
    [covering "switch_statement" 0 1
      [covering "switch_case" 0 0
          [covering "expression_statement" 0 0 [], covering "expression_statement" 0 0 []],
        covering "switch_case" 0 1 [covering "expression_statement" 0 1 []]]]

/-- Its graph. -/
def silentGraph : Graph where
  blocks :=
    [{ block "cfg_4" "entry" .entry "root" with stop := 1 },
      { block "cfg_0" "match" .choice "root-0" with statements := ["x"], stop := 1 },
      block "cfg_1" "" .statement "root-0-arm0-0", block "cfg_2" "" .statement "root-0-arm0-1",
      { block "cfg_3" "x" .statement "root-0-arm1-0" with stop := 1 }]
  edges :=
    [⟨"cfg_1", "cfg_2", none⟩, ⟨"cfg_0", "cfg_1", some ""⟩, ⟨"cfg_0", "cfg_3", some "x"⟩,
      ⟨"cfg_4", "cfg_0", none⟩]

/-- What is built of the choice with a silent arm. -/
theorem build_silent :
    (teller.build silent).2 =
      .ok (silentGraph, [.entryPromoted "cfg_4" "cfg_0", .graphBuilt 5 4]) := by
  decide +kernel

/-- The way into the first arm. -/
def intoSilent : Draft.Edge :=
  ⟨0, 1, .arm 0 [(covering "expression_statement" 0 0 []).label,
    (covering "expression_statement" 0 0 []).label]⟩

/-- The way into the second arm. -/
def intoTelling : Draft.Edge :=
  ⟨0, 3, .arm 1 [(covering "expression_statement" 0 1 []).label]⟩

/-- The edges of its draft. -/
theorem edges_silent :
    (draft .default (KindTable.default.mark silent)).edges =
      [⟨1, 2, .onward⟩, intoSilent, intoTelling, ⟨4, 0, .onward⟩] := by
  with_unfolding_all rfl

/-- Two of these edges enter arms. -/
theorem enters_silent {edge : Draft.Edge} (h : edge = intoSilent ∨ edge = intoTelling) :
    ∃ arm, EntersArm .default (KindTable.default.mark silent) edge arm := by
  refine entersArm_iff.2 ⟨?_, ?_⟩
  · rw [edges_silent]
    rcases h with rfl | rfl <;> simp
  · rcases h with rfl | rfl <;> exact ⟨_, _, rfl⟩

end Sample

/-- The edge into the arm with a text shows the text. -/
theorem labelled_of_build_silent :
    (Sample.teller.build Sample.silent).2 =
        .ok (Sample.silentGraph, [.entryPromoted "cfg_4" "cfg_0", .graphBuilt 5 4]) ∧
      ∃ arm, EntersArm .default (KindTable.default.mark Sample.silent) Sample.intoTelling arm ∧
        Sample.intoTelling.write Sample.teller.source ∈ Sample.silentGraph.edges ∧
        ShowsArm Sample.teller.source arm.infos
          (Sample.intoTelling.write Sample.teller.source) := by
  refine ⟨Sample.build_silent, ?_⟩
  obtain ⟨arm, henters⟩ := Sample.enters_silent (.inr rfl)
  exact ⟨arm, henters, (labelled_of_build Sample.build_silent).1 _ arm henters⟩

/-- The way into the first arm of the sample has an empty label. -/
theorem silent_arm :
    (Sample.teller.build Sample.silent).2 =
        .ok (Sample.silentGraph, [.entryPromoted "cfg_4" "cfg_0", .graphBuilt 5 4]) ∧
      (∃ arm, EntersArm .default (KindTable.default.mark Sample.silent) Sample.intoSilent arm) ∧
      Sample.intoSilent.write Sample.teller.source = ⟨"cfg_0", "cfg_1", some ""⟩ ∧
      (⟨"cfg_0", "cfg_1", some ""⟩ : Edge) ∈ Sample.silentGraph.edges ∧
      (⟨"cfg_0", "cfg_1", some ""⟩ : Edge).toJson = (⟨"cfg_0", "cfg_1", none⟩ : Edge).toJson := by
  exact ⟨Sample.build_silent, Sample.enters_silent (.inl rfl), by decide +kernel,
    by simp [Sample.silentGraph], rfl⟩

end Builder

end Flowchart
