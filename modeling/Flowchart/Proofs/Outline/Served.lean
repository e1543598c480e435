import Flowchart.Proofs.Outline.Within

/-!
# `Flowchart.Proofs.Outline.Served`: the requests of a whole tree

While a tree is drafted, many requests are served: the one for its root, and
with each request those for its parts, one after the other. Each is served on
the draft that was made up to there.

What a request is served on tells where its outline lies in that of the root,
and what it adds stays in the draft of the tree, with what is drafted later
behind it.

* `Served`: the requests that are served while a tree is drafted, and what
  they are served on;
* `Served.within`: where the outline of a request lies;
* `Served.goes_on`: the draft of the tree goes on from what a request leaves;
* `numbers_draft`: the blocks of the draft of a tree are numbered from zero on;
* `promoted_eq_some_iff`: when a tree gets an entry of its own;
* `mem_edges_draft`: the edges of the graph, those of the outline of the root
  and the one out of an entry of its own.
-/

set_option autoImplicit false

namespace Flowchart.Draft

/-- A construct is opened and some of its parts are served. -/
def Request.upTo (table : KindTable) (r : Request) (before : List (Part × Request)) :
    Drafting Construct := do
  let construct ← r.start table
  serveParts table before construct

/-- A request is served on a draft while a tree is drafted. -/
inductive Served (table : KindTable) (tree : MarkedTree) : Request → Draft → Prop where
  | root : Served table tree (rootRequest table tree) (opening tree)
  | part {r : Request} {d : Draft} {before after : List (Part × Request)} {part : Part}
      {q : Request} (h : Served table tree r d)
      (hparts : r.parts table = before ++ (part, q) :: after) :
      Served table tree q (r.upTo table before d).2

section

open Outline

variable {table : KindTable} {r : Request}

/-! ### What each step makes -/

/-- To receive a part is to draw edges. -/
theorem makes_receive (construct : Construct) (part : Part) (result : Option Fragment) (a : Nat) :
    ∃ resumed edges, Makes (construct.receive part result) a resumed [] edges := by
  cases result with
  | none => exact ⟨_, _, Makes.pure a construct⟩
  | some fragment =>
    simp only [Construct.receive]
    split
    · exact ⟨_, _, Makes.pure a _⟩
    · exact ⟨_, _, (Makes.joinAll _ _ _ a).give _⟩
    · exact ⟨_, _, (Makes.addEdge _ _ _ a).give _⟩
    · exact ⟨_, _, (Makes.addEdge _ _ _ a).give _⟩
    · exact ⟨_, _, (Makes.addEdge _ _ _ a).draw ((Makes.joinAll _ _ _ a).give _)⟩
    · exact ⟨_, _, (Makes.addEdge _ _ _ a).give _⟩
    · exact ⟨_, _, Makes.pure a _⟩
    · exact ⟨_, _, Makes.pure a _⟩

/-- To close a construct is to make blocks and edges. -/
theorem makes_finish (construct : Construct) (a : Nat) :
    ∃ result blocks edges, Makes construct.finish a result blocks edges := by
  cases construct with
  | done result => exact ⟨_, _, _, Makes.pure a result⟩
  | chain linked => exact ⟨_, _, _, Makes.pure a linked⟩
  | branch header hasAlternative refusal whenTrue whenFalse =>
    exact ⟨_, _, _, (Makes.refuse refusal a).give _⟩
  | loop header => exact ⟨_, _, _, Makes.pure a _⟩
  | choice header exits => exact ⟨_, _, _, Makes.pure a _⟩
  | function entry node path body =>
    cases body with
    | none => exact ⟨_, _, _, Makes.pure a _⟩
    | some body =>
      exact ⟨_, _, _, makes_finish_function_some entry ⟨node, path, .whole⟩ body a⟩

/-- Before the first part is served there is a header, or nothing. -/
theorem makes_start (hparts : r.parts table ≠ []) (a : Nat) :
    ∃ opened blocks, Makes (r.start table) a opened blocks [] ∧ blocks.length = r.lead table := by
  cases hmode : r.mode with
  | chain =>
    exact ⟨.chain none, [], makes_start_chain hmode a, by simp [Request.lead, hmode]⟩
  | visit =>
    cases hcategory : table.category? r.tree.label.kind with
    | none =>
      cases hcontainer : table.isContainer r.tree.label with
      -- A leaf and a terminator have no parts, so the assumption rules them out.
      | false => simp [Request.parts, hmode, hcategory, hcontainer] at hparts
      | true =>
        exact ⟨.chain none, [], makes_start_container hmode hcategory hcontainer a,
          by simp [Request.lead, hmode, hcategory]⟩
    | some category =>
      have hlead : r.lead table = 1 := by simp [Request.lead, hmode, hcategory]
      rw [hlead]
      cases category with
      | branch => exact ⟨_, _, makes_start_branch hmode hcategory a, rfl⟩
      | loop => exact ⟨_, _, makes_start_loop hmode hcategory a, rfl⟩
      | choice => exact ⟨_, _, makes_start_choice hmode hcategory a, rfl⟩
      | terminator => simp [Request.parts, hmode, hcategory] at hparts
      | function => exact ⟨_, _, makes_start_function hmode hcategory a, rfl⟩

/-- The parts of a construct make the blocks of their outlines. -/
theorem makes_parts (parts : List (Part × Request)) (construct : Construct) (a : Nat) :
    ∃ received blocks edges, Makes (serveParts table parts construct) a received blocks edges ∧
      blocks.length = sizes (built table parts) := by
  induction parts generalizing construct a with
  | nil => exact ⟨construct, [], [], makes_no_parts construct a, rfl⟩
  | cons p parts ih =>
    -- Only the part itself makes blocks; that the construct receives it draws edges.
    have hserve := drafts table p.2 a
    obtain ⟨resumed, drawn, hreceive⟩ := makes_receive construct p.1
      ((outline table p.2).map (Outline.fragment · a))
      (a + (blocksIfAny (outline table p.2) a).length)
    obtain ⟨received, blocks, edges, hrest, hlength⟩ := ih resumed
      (a + (blocksIfAny (outline table p.2) a).length)
    refine ⟨received, blocksIfAny (outline table p.2) a ++ blocks,
      edgesIfAny (outline table p.2) a ++ (drawn ++ edges), ?_, ?_⟩
    · rw [serveParts_cons]
      exact hserve.bind (hreceive.draw hrest)
    · rw [List.length_append, length_blocksIfAny, hlength]
      cases houtline : outline table p.2 <;>
        simp [built, houtline, sizeIfAny]

/-- What is made before a part is served. -/
theorem makes_upTo {before after : List (Part × Request)}
    (hparts : r.parts table = before ++ after) (hafter : after ≠ []) (a : Nat) :
    ∃ received blocks edges, Makes (r.upTo table before) a received blocks edges ∧
      blocks.length = r.lead table + sizes (built table before) := by
  obtain ⟨opened, blocks, hstart, hlead⟩ := @makes_start table r
    (by simp [hparts, hafter]) a
  obtain ⟨received, blocks', edges, hparts, hsizes⟩ := @makes_parts table before opened
    (a + blocks.length)
  exact ⟨received, blocks ++ blocks', edges, hstart.bind hparts,
    by rw [List.length_append, hlead, hsizes]⟩

/-- The number of the first block that is made for a part. -/
theorem next_upTo {before after : List (Part × Request)}
    (hparts : r.parts table = before ++ after) (hafter : after ≠ []) (d : Draft) :
    (r.upTo table before d).2.next = d.next + r.lead table + sizes (built table before) := by
  obtain ⟨_, blocks, _, hmakes, hlength⟩ := makes_upTo hparts hafter d.next
  rw [(hmakes d rfl).2.next, hlength, Nat.add_assoc]

/-! ### Where a request is served -/

/-- The draft that a tree is drafted on has nothing in it. -/
theorem opening_adds (tree : MarkedTree) : Adds empty (opening tree) [] [] :=
  (Makes.refuse _ 0 empty rfl).2

/-- The draft that a tree is drafted on numbers its blocks from zero on. -/
theorem opening_next (tree : MarkedTree) : (opening tree).next = 0 :=
  (opening_adds tree).next

namespace Served

variable {tree : MarkedTree} {d : Draft}

/-- The outline of a request lies inside that of the root. -/
theorem within (h : Served table tree r d) {inner : Outline}
    (hinner : outline table r = some inner) :
    ∃ whole, outline table (rootRequest table tree) = some whole ∧
      Within (0, whole) (d.next, inner) := by
  induction h generalizing inner with
  | root => exact ⟨inner, hinner, opening_next tree ▸ .whole⟩
  | @part r d before after part q _ hparts ih =>
    obtain ⟨middle, hmiddle, hpart⟩ := within_part hparts hinner d.next
    obtain ⟨whole, hwhole, hwithin⟩ := ih hmiddle
    -- The draft has grown by the header and the parts in front of this one.
    have hnext := next_upTo hparts (List.cons_ne_nil _ _) d
    exact ⟨whole, hwhole, hnext ▸ hwithin.trans hpart⟩

end Served

/-- What is left to do for a construct once a part has been served. -/
def Construct.rest (table : KindTable) (construct : Construct) (part : Part)
    (after : List (Part × Request)) (result : Option Fragment) : Drafting (Option Fragment) := do
  let construct ← construct.receive part result
  let construct ← serveParts table after construct
  construct.finish

/-- A request is served up to one of its parts, then that part is, and then
the rest of it. -/
theorem serve_split {before after : List (Part × Request)} {part : Part} {q : Request}
    (hparts : r.parts table = before ++ (part, q) :: after) :
    serve table r = (do
      let construct ← r.upTo table before
      let result ← serve table q
      construct.rest table part after result) := by
  rw [serve_eq, hparts]
  simp only [serveParts_append, serveParts_cons, Request.upTo, Construct.rest, bind_assoc]

/-- What comes behind a part makes blocks and edges. -/
theorem makes_rest (construct : Construct) (part : Part) (after : List (Part × Request))
    (result : Option Fragment) (a : Nat) :
    ∃ finished blocks edges,
      Makes (construct.rest table part after result) a finished blocks edges := by
  obtain ⟨resumed, _, hreceive⟩ := makes_receive construct part result a
  obtain ⟨received, blocks, _, hafter, _⟩ := @makes_parts table after resumed a
  obtain ⟨finished, _, _, hfinish⟩ := makes_finish received (a + blocks.length)
  exact ⟨finished, _, _, hreceive.draw (hafter.bind hfinish)⟩

namespace Served

variable {tree : MarkedTree} {d : Draft}

/-- The draft of a tree goes on from what serving a request leaves. -/
theorem goes_on (h : Served table tree r d) :
    ∃ blocks edges, Adds (serve table r d).2 (draft table tree).draft blocks edges := by
  induction h with
  | root =>
    rw [draft_draft]
    exact ⟨[], [], rfl, (List.append_nil _).symm, (List.append_nil _).symm⟩
  | @part r d before after part q _ hparts ih =>
    -- The rest of the request comes first, and what comes behind the request after it.
    obtain ⟨later, drawn, hlater⟩ := ih
    obtain ⟨_, blocks, edges, hrest⟩ := @makes_rest table (r.upTo table before d).1 part
      after (serve table q (r.upTo table before d).2).1
      (serve table q (r.upTo table before d).2).2.next
    have hadds := (hrest _ rfl).2
    rw [serve_split hparts] at hlater
    exact ⟨_, _, hadds.trans hlater⟩

end Served

/-! ### The graph of a tree -/

section Root

variable (table : KindTable) (tree : MarkedTree)

/-- The root is served with the fragment of its outline. -/
theorem served_eq :
    (served table tree).1 =
      (outline table (rootRequest table tree)).map (Outline.fragment · 0) :=
  (drafts table (rootRequest table tree) 0 (opening tree) (opening_next tree)).1

/-- The draft of a tree is the outline of its root. -/
theorem adds_draft :
    Adds empty (draft table tree).draft
      (blocksIfAny (outline table (rootRequest table tree)) 0)
      (edgesIfAny (outline table (rootRequest table tree)) 0) := by
  have hadds := (drafts table (rootRequest table tree) 0 (opening tree) (opening_next tree)).2
  rw [draft_draft]
  exact (opening_adds tree).trans hadds

/-- The blocks of a draft are those of the outline of the root. -/
theorem blocks_draft :
    (draft table tree).draft.blocks =
      blocksIfAny (outline table (rootRequest table tree)) 0 :=
  (adds_draft table tree).blocks

/-- The edges of a draft are those of the outline of the root. -/
theorem edges_draft :
    (draft table tree).draft.edges =
      edgesIfAny (outline table (rootRequest table tree)) 0 :=
  (adds_draft table tree).edges

/-- A draft goes on numbering behind the outline of the root. -/
theorem next_draft :
    (draft table tree).draft.next = sizeIfAny (outline table (rootRequest table tree)) := by
  rw [(adds_draft table tree).next, length_blocksIfAny]
  exact Nat.zero_add _

/-- The blocks of a draft are numbered from zero on. -/
theorem numbers_draft :
    (draft table tree).draft.blocks.map Block.number =
      List.range (draft table tree).draft.next := by
  rw [blocks_draft, next_draft, List.range_eq_range']
  exact number_blocksIfAny (fun o _ => o.number_blocks) 0

/-- When a tree gets an entry of its own: it is a chain, something was drafted
for it, and nothing of that is an entry. -/
structure NeedsEntry : Prop where
  plain : table.category? tree.label.kind = none
  named : tree.namedChildren ≠ []
  drafted : (draft table tree).draft.blocks ≠ []
  entryless : ∀ block ∈ (draft table tree).draft.blocks, block.kind ≠ .entry

/-- The children of the root are linked in a row if the root has no category and
has named children. -/
theorem mode_eq_chain :
    (rootRequest table tree).mode = .chain ↔
      table.category? tree.label.kind = none ∧ tree.namedChildren ≠ [] := by
  simp [rootRequest, KindTable.isStructural]

/-- An entry of its own is needed by a chain for which something was drafted,
but no entry. -/
theorem needsEntry_iff_kinds :
    NeedsEntry table tree ↔
      (rootRequest table tree).mode = .chain ∧ (draft table tree).draft.blocks.map Block.kind ≠ [] ∧
        .entry ∉ (draft table tree).draft.blocks.map Block.kind := by
  simp only [mode_eq_chain, ne_eq, List.map_eq_nil_iff, List.mem_map]
  refine ⟨fun h => ⟨⟨h.plain, h.named⟩, h.drafted, ?_⟩, fun ⟨⟨hplain, hnamed⟩, hdrafted, hnone⟩ =>
    ⟨hplain, hnamed, hdrafted, fun block hblock hentry => hnone ⟨block, hblock, hentry⟩⟩⟩
  rintro ⟨block, hblock, hentry⟩
  exact h.entryless block hblock hentry

/-- An entry of its own is made where one is needed, and leads to the first
block. -/
theorem promoted_eq_some_iff {root : NodeInfo} {target : Nat} :
    (draft table tree).promoted = some (root, target) ↔
      NeedsEntry table tree ∧ root = tree.label.toNodeInfo ∧ target = 0 := by
  have hblocks := blocks_draft table tree
  rw [draft_eq]
  -- Only a root that is drafted as a chain can need an entry.
  cases hmode : (rootRequest table tree).mode with
  | visit =>
    refine ⟨nofun, fun h => ?_⟩
    rw [(mode_eq_chain table tree).2 ⟨h.1.plain, h.1.named⟩] at hmode
    cases hmode
  | chain =>
    obtain ⟨hplain, hnamed⟩ := (mode_eq_chain table tree).1 hmode
    rw [draft_draft] at hblocks
    simp only [promotion, served_eq, hblocks]
    cases houtline : outline table (rootRequest table tree) with
    | none =>
      refine ⟨by simp, fun h => absurd ?_ h.1.drafted⟩
      rw [blocks_draft, houtline]
      rfl
    | some whole =>
      have hsome : whole.blocks 0 ≠ [] := by
        rw [← List.length_pos_iff, length_blocks]
        exact whole.size_pos
      have hdrafted : (draft table tree).draft.blocks = whole.blocks 0 := by
        rw [blocks_draft, houtline]
        rfl
      -- There are blocks, so it is decided by whether one of them is an entry.
      constructor
      · intro h
        split at h
        · cases h
        · rename_i hentry
          cases h
          refine ⟨⟨hplain, hnamed, hdrafted ▸ hsome, ?_⟩, rfl, rfl⟩
          rw [hdrafted]
          simpa using hentry
      · rintro ⟨h, rfl, rfl⟩
        have hentry := h.entryless
        rw [hdrafted] at hentry
        rw [if_neg (by simpa using hentry)]
        rfl

end Root

/-- The edges of the graph are those of the outline of the root, and the one
out of an entry of its own. -/
theorem mem_edges_draft {tree : MarkedTree} {edge : Edge} :
    edge ∈ (draft table tree).edges ↔
      edge ∈ edgesIfAny (outline table (rootRequest table tree)) 0 ∨
        (NeedsEntry table tree ∧ edge = ⟨(draft table tree).draft.next, 0, .onward⟩) := by
  rw [Result.edges, List.mem_append, edges_draft]
  refine or_congr Iff.rfl ?_
  simp only [Result.entryEdge?, Option.mem_toList, Option.map_eq_some_iff, Prod.exists,
    promoted_eq_some_iff]
  constructor
  · rintro ⟨_, _, ⟨hneeds, rfl, rfl⟩, rfl⟩
    exact ⟨hneeds, rfl⟩
  · rintro ⟨hneeds, rfl⟩
    exact ⟨_, _, ⟨hneeds, rfl, rfl⟩, rfl⟩

/-- What is joined in a draft is joined in the outline of the root, or is the
entry of its own and the first block. -/
theorem joined_draft {tree : MarkedTree} {whole : Outline}
    (hwhole : outline table (rootRequest table tree) = some whole) {m n : Nat}
    (h : Joined (draft table tree).edges m n) :
    Joined (whole.edges 0) m n ∨ (m = whole.size ∧ n = 0) := by
  obtain ⟨edge, hedge, rfl, rfl⟩ := h
  rcases mem_edges_draft.1 hedge with hedge | ⟨_, rfl⟩
  · rw [hwhole] at hedge
    exact .inl ⟨edge, hedge, rfl, rfl⟩
  · right
    rw [next_draft, hwhole]
    exact ⟨rfl, rfl⟩

end

/-! ### A sample

A loop around a statement, in front of another statement. -/

namespace Sample

/-- A node of a kind that says nothing else. -/
def node (kind : Text) : NodeInfo :=
  ⟨.string kind, 0, 0, ⟨0, 0⟩, ⟨0, 0⟩, true⟩

/-- One kind of loop and one kind of body. -/
def kinds : KindTable :=
  .ofRoles fun
    | .loops => KindSet.ofList [.text "while"]
    | .bodies => KindSet.ofList [.text "do"]
    | _ => ∅

/-- The tree of the program. -/
def program : SyntaxTree :=
  .node (node "all") [.node (node "while") [.node (node "do") [.node (node "call") []]],
    .node (node "call") []]

/-- The request for the loop. -/
def loop : Request :=
  ⟨.visit, .node ⟨node "while", false⟩
    [.node ⟨node "do", false⟩ [.node ⟨node "call", false⟩ []]], [.child 0]⟩

/-- The request for the statement behind the loop. -/
def last : Request :=
  ⟨.visit, .node ⟨node "call", false⟩ [], [.child 1]⟩

/-- What the loop is served on. -/
def beforeLoop : Draft :=
  ((rootRequest kinds (kinds.mark program)).upTo kinds [] (opening (kinds.mark program))).2

/-- The root of the program has two links. -/
theorem parts_root :
    (rootRequest kinds (kinds.mark program)).parts kinds = [(.link, loop), (.link, last)] := by
  rfl

/-- The loop of the program is one. -/
theorem category_loop : kinds.category? loop.tree.label.kind = some .loop := by
  rfl

/-- The loop is served while the program is drafted. -/
theorem served_loop : Served kinds (kinds.mark program) loop beforeLoop :=
  .part .root parts_root

/-- Nothing is made before the loop. -/
theorem next_beforeLoop : beforeLoop.next = 0 := by
  rfl

/-- The loop is entered at its header and left from there. -/
theorem serve_loop : (serve kinds loop beforeLoop).1 = some ⟨0, [0]⟩ := by
  decide +kernel

/-- The loop makes two blocks. -/
theorem next_loop : (serve kinds loop beforeLoop).2.next = 2 := by
  decide +kernel

end Sample

end Flowchart.Draft
