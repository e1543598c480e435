import Flowchart.Proofs.Draft.Recursion
import Flowchart.Proofs.Outline.Request

/-!
# `Flowchart.Proofs.Outline.Drafted`: drafting makes the outline

Serving a request adds the blocks and edges of its outline to the draft,
whatever was drafted before, and gives the fragment of the outline. The
proof follows the construct: how it is opened, how it receives each part and
how it is closed.

* `makes_links`, `makes_arms`, `makes_inside`: rows of parts;
* `drafts`: what serving a request adds to a draft.
-/

set_option autoImplicit false

namespace Flowchart.Draft

/-- Serving a request adds its outline and gives its fragment. -/
def Drafts (table : KindTable) (r : Request) : Prop :=
  ∀ a, Makes (serve table r) a ((outline table r).map (Outline.fragment · a))
    (Outline.blocksIfAny (outline table r) a) (Outline.edgesIfAny (outline table r) a)

section Parts

open Outline

variable {table : KindTable}

/-- Where no parts are left, nothing is drafted. -/
theorem makes_no_parts (construct : Construct) (a : Nat) :
    Makes (serveParts table [] construct) a construct [] [] :=
  Makes.pure a construct

/-- Serving one part whose construct only draws edges. -/
theorem makes_part {p : Part × Request} (h : Drafts table p.2) {construct resumed : Construct}
    {a : Nat} {drawn : List Edge}
    (hreceive : ∀ n, Makes (construct.receive p.1 ((outline table p.2).map (Outline.fragment · a)))
      n resumed [] drawn)
    {rest : List (Part × Request)} {finished : Construct} {blocks : List Block}
    {edges : List Edge}
    (hrest : Makes (serveParts table rest resumed) (a + sizeIfAny (outline table p.2)) finished
      blocks edges) :
    Makes (serveParts table (p :: rest) construct) a finished
      (blocksIfAny (outline table p.2) a ++ blocks)
      (edgesIfAny (outline table p.2) a ++ (drawn ++ edges)) := by
  rw [serveParts_cons]
  refine (h a).bind ((hreceive _).draw ?_)
  rw [length_blocksIfAny]
  exact hrest

/-- The edges that join a part to what was linked before. -/
def linkEdges (a : Nat) : Option Outline → Option Outline → List Edge
  | some linked, some _ => joins (linked.exits a) (a + linked.size) .onward
  | _, _ => []

/-- What is linked has the blocks of both. -/
theorem size_follow (linked next : Option Outline) :
    sizeIfAny (follow linked next) = sizeIfAny linked + sizeIfAny next := by
  cases linked <;> cases next <;> simp [follow, sizeIfAny, size]

/-- What is linked lists its blocks one behind the other. -/
theorem blocks_follow (linked next : Option Outline) (a : Nat) :
    blocksIfAny (follow linked next) a =
      blocksIfAny linked a ++ blocksIfAny next (a + sizeIfAny linked) := by
  cases linked <;> cases next <;> simp [follow, blocksIfAny, sizeIfAny, Outline.blocks]

/-- What is linked has the edges of both and then those between them. -/
theorem edges_follow (linked next : Option Outline) (a : Nat) :
    edgesIfAny (follow linked next) a =
      edgesIfAny linked a ++ (edgesIfAny next (a + sizeIfAny linked) ++
        linkEdges a linked next) := by
  cases linked <;> cases next <;> simp [follow, edgesIfAny, sizeIfAny, Outline.edges, linkEdges]

/-- A row that receives one more link draws the edges to it. -/
theorem makes_receive_link (linked next : Option Outline) (a n : Nat) :
    Makes ((Construct.chain (linked.map (Outline.fragment · a))).receive .link
      (next.map (Outline.fragment · (a + sizeIfAny linked)))) n
      (.chain ((follow linked next).map (Outline.fragment · a))) []
      (linkEdges a linked next) := by
  cases next with
  | none =>
    cases linked <;> exact Makes.pure n _
  | some next =>
    cases linked with
    | none => exact Makes.pure n _
    | some linked =>
      exact (Makes.joinAll (linked.exits a) (a + linked.size) .onward n).give fun _ =>
        Construct.chain (some ⟨a, next.exits (a + linked.size)⟩)

/-- Serving links behind what was linked before. -/
theorem makes_links (links : List (Part × Request))
    (h : ∀ p ∈ links, p.1 = .link ∧ Drafts table p.2) (linked : Option Outline) (a : Nat) :
    ∃ blocks edges,
      Makes (serveParts table links (.chain (linked.map (Outline.fragment · a))))
        (a + sizeIfAny linked)
        (.chain (((links.map fun p => outline table p.2).foldl follow linked).map
          (Outline.fragment · a))) blocks edges ∧
      blocksIfAny ((links.map fun p => outline table p.2).foldl follow linked) a =
        blocksIfAny linked a ++ blocks ∧
      edgesIfAny ((links.map fun p => outline table p.2).foldl follow linked) a =
        edgesIfAny linked a ++ edges := by
  induction links generalizing linked with
  | nil => exact ⟨[], [], Makes.pure _ _, by simp, by simp⟩
  | cons p links ih =>
    obtain ⟨hlink, hp⟩ := h p List.mem_cons_self
    obtain ⟨blocks, edges, hmakes, hblocks, hedges⟩ :=
      ih (fun q hq => h q (List.mem_cons_of_mem p hq)) (follow linked (outline table p.2))
    -- The links behind it are served where this one ends.
    rw [size_follow, ← Nat.add_assoc] at hmakes
    have hreceive (n : Nat) := makes_receive_link linked (outline table p.2) a n
    rw [← hlink] at hreceive
    refine ⟨_, _, makes_part hp hreceive hmakes, ?_, ?_⟩
    · rw [List.map_cons, List.foldl_cons, hblocks, blocks_follow, List.append_assoc]
    · rw [List.map_cons, List.foldl_cons, hedges, edges_follow]
      simp only [List.append_assoc]

/-- Serving the chain inside a child, if there is one. -/
theorem makes_inside {part : Part} {path : Path} {child? : Option MarkedTree}
    (h : ∀ p ∈ Request.inside? part path child?, Drafts table p.2)
    {construct resumed : Construct} {a : Nat} {drawn : List Edge}
    (hreceive : ∀ n, Makes
      (construct.receive part ((insideOutline table path child?).map (Outline.fragment · a)))
      n resumed [] drawn)
    {rest : List (Part × Request)} {finished : Construct} {blocks : List Block}
    {edges : List Edge}
    (hrest : Makes (serveParts table rest resumed) (a + sizeIfAny (insideOutline table path child?))
      finished blocks edges) :
    Makes (serveParts table (Request.inside? part path child? ++ rest) construct) a finished
      (blocksIfAny (insideOutline table path child?) a ++ blocks)
      (edgesIfAny (insideOutline table path child?) a ++ (drawn ++ edges)) := by
  cases child? with
  | none => exact (hreceive a).draw hrest
  | some child => exact makes_part (h _ List.mem_cons_self) hreceive hrest

/-- The edge into a part that may have built nothing. -/
def entryEdges (header : Nat) (flow : Flow) (a : Nat) : Option Outline → List Edge
  | none => []
  | some _ => [⟨header, a, flow⟩]

/-- The edges of a side are those inside the part and the one into it. -/
theorem sideEdges_eq (header : Nat) (flow : Flow) (made : Option Outline) (a : Nat) :
    sideEdges header flow made a = edgesIfAny made a ++ entryEdges header flow a made := by
  cases made <;> rfl

/-- Serving the arms of a choice. -/
theorem makes_arms (parts : List (Part × Request))
    (h : ∀ p ∈ parts, (∃ index names, p.1 = .arm index names) ∧ Drafts table p.2)
    (header : Nat) (exits : List Nat) (a : Nat) :
    Makes (serveParts table parts (.choice header exits)) a
      (.choice header
        (exits ++ armsExits (armsOf (parts.map fun p => (p.1, outline table p.2))) a))
      (armsBlocks (armsOf (parts.map fun p => (p.1, outline table p.2))) a)
      (armsEdges header (armsOf (parts.map fun p => (p.1, outline table p.2))) a) := by
  induction parts generalizing exits a with
  | nil =>
    simp only [List.map_nil, armsOf, List.filterMap_nil, armsExits, List.append_nil]
    exact Makes.pure a _
  | cons p parts ih =>
    obtain ⟨⟨index, names, harm⟩, hp⟩ := h p List.mem_cons_self
    have ih := ih fun q hq => h q (List.mem_cons_of_mem p hq)
    have hreceive (n : Nat) : Makes
        ((Construct.choice header exits).receive p.1
          ((outline table p.2).map (Outline.fragment · a)))
        n (.choice header (exits ++ exitsIfAny [] (outline table p.2) a)) []
        (entryEdges header (.arm index names) a (outline table p.2)) := by
      rw [harm]
      cases outline table p.2 with
      | none =>
        simp only [exitsIfAny, List.append_nil]
        exact Makes.pure n _
      | some arm =>
        exact (Makes.addEdge header a (.arm index names) n).give fun _ =>
          Construct.choice header (exits ++ arm.exits a)
    have hmakes := makes_part hp hreceive (ih _ _)
    -- An arm that built nothing is not among the arms.
    cases hmade : outline table p.2 with
    | none =>
      simpa [armsOf, hmade, harm, exitsIfAny, sizeIfAny, blocksIfAny, edgesIfAny, entryEdges]
        using hmakes
    | some arm =>
      simpa [armsOf, hmade, harm, exitsIfAny, sizeIfAny, blocksIfAny, edgesIfAny, entryEdges,
        armsExits, armsBlocks, armsEdges] using hmakes

end Parts

/-- Serving a request step by step. -/
theorem makes_serve {table : KindTable} {r : Request} {a : Nat}
    {opened received : Construct} {result : Option Fragment}
    {blocks blocks' blocks'' : List Block} {edges edges' edges'' : List Edge}
    (hstart : Makes (r.start table) a opened blocks edges)
    (hparts : Makes (serveParts table (r.parts table) opened) (a + blocks.length) received
      blocks' edges')
    (hfinish : Makes received.finish (a + blocks.length + blocks'.length) result
      blocks'' edges'') :
    Makes (serve table r) a result (blocks ++ (blocks' ++ blocks''))
      (edges ++ (edges' ++ edges'')) := by
  rw [serve_eq]
  exact hstart.bind (hparts.bind hfinish)

section Category

open Outline

variable {table : KindTable} {r : Request}

/-! A branch. -/

/-- A branch starts with the block of its header. -/
theorem makes_start_branch (hmode : r.mode = .visit)
    (hcategory : table.category? r.tree.label.kind = some .branch) (a : Nat) :
    Makes (r.start table) a
      (.branch a (r.tree.child? table .alternatives).isSome
        (r.tree.childRefusal? table .alternatives) none none)
      [(r.origin (.branch (infoOf (r.tree.condition? table)))).block .branch a] [] := by
  simp only [Request.start, hmode, hcategory]
  exact (Makes.refuse _ a).skip ((Makes.refuse _ a).skip
    ((Makes.newBlock _ _ _ _ a).block ((Makes.refuse _ (a + 1)).give _)))

/-- A branch draws an edge into its first part. -/
theorem makes_receive_branch_body (header : Nat) (hasAlternative : Bool) (refusal : Option Json)
    (made : Option Outline) (a n : Nat) :
    Makes ((Construct.branch header hasAlternative refusal none none).receive .body
        (made.map (Outline.fragment · a))) n
      (.branch header hasAlternative refusal (made.map (Outline.fragment · a)) none) []
      (entryEdges header .whenTrue a made) := by
  cases made with
  | none => exact Makes.pure n _
  | some made => exact (Makes.addEdge header a .whenTrue n).give _

/-- A branch draws an edge into its other part. -/
theorem makes_receive_branch_alternative (header : Nat) (hasAlternative : Bool)
    (refusal : Option Json) (body : Option Fragment) (made : Option Outline) (a n : Nat) :
    Makes ((Construct.branch header hasAlternative refusal body none).receive .alternative
        (made.map (Outline.fragment · a))) n
      (.branch header hasAlternative refusal body (made.map (Outline.fragment · a))) []
      (entryEdges header .whenFalse a made) := by
  cases made with
  | none => exact Makes.pure n _
  | some made => exact (Makes.addEdge header a .whenFalse n).give _

/-- A branch that is closed leaves the fragment of its outline, and draws
nothing more. -/
theorem makes_finish_branch (origin : Origin) (hasAlternative : Bool) (refusal : Option Json)
    (body alternative : Option Outline) (a n : Nat) :
    Makes (Construct.finish (.branch a hasAlternative refusal
        (body.map (Outline.fragment · (a + 1)))
        (alternative.map (Outline.fragment · (a + 1 + sizeIfAny body))))) n
      (some ((Outline.branch origin hasAlternative body alternative).fragment a)) [] [] := by
  have h := (Makes.refuse refusal n).give fun _ =>
    some ((Outline.branch origin hasAlternative body alternative).fragment a)
  cases body <;> cases alternative <;> exact h

/-- If the parts of a branch are drafted as outlined, so is the branch. -/
theorem drafts_branch (hmode : r.mode = .visit)
    (hcategory : table.category? r.tree.label.kind = some .branch)
    (h : ∀ p ∈ r.parts table, Drafts table p.2) : Drafts table r := by
  intro a
  have hparts : r.parts table =
      Request.inside? .body r.path (r.tree.child? table .bodies) ++
        (Request.inside? .alternative r.path (r.tree.child? table .alternatives) ++ []) := by
    simp [Request.parts, hmode, hcategory]
  have hbody := fun p hp => h p (hparts ▸ List.mem_append_left _ hp)
  have halternative := fun p hp =>
    h p (hparts ▸ List.mem_append_right _ (List.mem_append_left _ hp))
  -- The alternative is served behind the body.
  have hserved := makes_inside hbody (makes_receive_branch_body a
      (r.tree.child? table .alternatives).isSome (r.tree.childRefusal? table .alternatives) _
      (a + 1))
    (makes_inside halternative (makes_receive_branch_alternative a _ _ _ _ _)
      (makes_no_parts _ _))
  rw [← hparts] at hserved
  have hmakes := makes_serve (makes_start_branch hmode hcategory a) hserved
    (makes_finish_branch (r.origin (.branch (infoOf (r.tree.condition? table)))) _ _ _ _ a _)
  rw [outline_branch hmode hcategory]
  simpa [Outline.blocks, Outline.edges, sideEdges_eq, childOutline] using hmakes

/-! A loop. -/

/-- The header of a loop is one block, with the word for the kind and the
condition. -/
theorem makes_loopHeader (node : NodeInfo) (path : Path) (condition : Option NodeInfo) (a : Nat) :
    Makes (Request.loopHeader node path condition) a a
      [⟨a, .loop, node, path, .loop ((Request.loopWord? node.kind).getD []) condition⟩] [] := by
  rw [Request.loopHeader]
  cases Request.loopWord? node.kind with
  | some word => exact Makes.newBlock _ _ _ _ a
  | none =>
    have hcut : Makes (condition.forM cut) a () [] [] := by
      cases condition with
      | none => exact Makes.pure a ()
      | some condition => exact Makes.cut condition a
    exact hcut.skip ((Makes.fail _ a).skip (Makes.newBlock _ _ _ _ a))

/-- A loop starts with the block of its header. -/
theorem makes_start_loop (hmode : r.mode = .visit)
    (hcategory : table.category? r.tree.label.kind = some .loop) (a : Nat) :
    Makes (r.start table) a (.loop a)
      [(r.origin (.loop ((Request.loopWord? r.tree.label.kind).getD [])
        (infoOf (r.tree.condition? table)))).block .loop a] [] := by
  simp only [Request.start, hmode, hcategory]
  exact (Makes.refuse _ a).skip ((Makes.refuse _ a).skip
    ((makes_loopHeader _ _ _ a).block ((Makes.refuse _ (a + 1)).give _)))

/-- A loop draws an edge into its body and the edges back from the exits of the
body. -/
theorem makes_receive_loop_body (header : Nat) (made : Option Outline) (a n : Nat) :
    Makes ((Construct.loop header).receive .body (made.map (Outline.fragment · a))) n
      (.loop header) []
      (entryEdges header .body a made ++ joins (exitsIfAny [] made a) header .next) := by
  cases made with
  | none => exact Makes.pure n _
  | some made =>
    exact (Makes.addEdge header a .body n).draw ((Makes.joinAll _ header .next n).give _)

/-- A loop that is closed is entered at its header and left from there. -/
theorem makes_finish_loop (header n : Nat) :
    Makes (Construct.finish (.loop header)) n (some ⟨header, [header]⟩) [] [] :=
  Makes.pure n _

/-- If the parts of a loop are drafted as outlined, so is the loop. -/
theorem drafts_loop (hmode : r.mode = .visit)
    (hcategory : table.category? r.tree.label.kind = some .loop)
    (h : ∀ p ∈ r.parts table, Drafts table p.2) : Drafts table r := by
  intro a
  have hparts : r.parts table =
      Request.inside? .body r.path (r.tree.child? table .bodies) ++ [] := by
    simp [Request.parts, hmode, hcategory]
  have hbody := fun p hp => h p (hparts ▸ List.mem_append_left _ hp)
  have hserved := makes_inside hbody (makes_receive_loop_body a _ (a + 1)) (makes_no_parts _ _)
  rw [← hparts] at hserved
  have hmakes := makes_serve (makes_start_loop hmode hcategory a) hserved
    (makes_finish_loop a _)
  rw [outline_loop hmode hcategory]
  simpa [Outline.fragment, Outline.exits, Outline.blocks, Outline.edges, sideEdges_eq,
    childOutline] using hmakes

/-! A choice. -/

/-- A choice starts with the block of its header. -/
theorem makes_start_choice (hmode : r.mode = .visit)
    (hcategory : table.category? r.tree.label.kind = some .choice) (a : Nat) :
    Makes (r.start table) a (.choice a []) [(r.origin .choice).block .choice a] [] := by
  simp only [Request.start, hmode, hcategory]
  exact (Makes.refuse _ a).skip
    ((Makes.newBlock _ _ _ _ a).block ((Makes.refuse _ (a + 1)).give _))

/-- A choice that is closed is left from the exits that were gathered, or from
its header if there are none. -/
theorem makes_finish_choice (header : Nat) (exits : List Nat) (n : Nat) :
    Makes (Construct.finish (.choice header exits)) n
      (some ⟨header, Construct.distinct (if exits.isEmpty then [header] else exits)⟩) [] [] :=
  Makes.pure n _

/-- If the arms of a choice are drafted as outlined, so is the choice. -/
theorem drafts_choice (hmode : r.mode = .visit)
    (hcategory : table.category? r.tree.label.kind = some .choice)
    (h : ∀ p ∈ r.parts table, Drafts table p.2) : Drafts table r := by
  intro a
  have hparts : r.parts table = Request.armParts table r.tree r.path := by
    simp [Request.parts, hmode, hcategory]
  have harms : ∀ p ∈ r.parts table, (∃ index names, p.1 = .arm index names) ∧ Drafts table p.2 := by
    intro p hp
    refine ⟨?_, h p hp⟩
    obtain ⟨⟨arm, index⟩, _, rfl⟩ := List.mem_map.1 (hparts ▸ hp)
    exact ⟨_, _, rfl⟩
  -- The exits are collected arm by arm, so the lemma on arms is for any exits so far.
  have hmakes := makes_serve (makes_start_choice hmode hcategory a)
    (makes_arms (r.parts table) harms a [] (a + 1)) (makes_finish_choice a _ _)
  rw [outline_choice hmode hcategory]
  simpa [Outline.blocks, Outline.edges, Outline.fragment, Outline.exits] using hmakes

/-! A function. -/

/-- A function starts with the block of its entry. -/
theorem makes_start_function (hmode : r.mode = .visit)
    (hcategory : table.category? r.tree.label.kind = some .function) (a : Nat) :
    Makes (r.start table) a (.function a r.tree.label.toNodeInfo r.path none)
      [(r.origin (.function (infoOf (r.tree.name? table)))).block .entry a] [] := by
  simp only [Request.start, hmode, hcategory]
  exact (Makes.refuse _ a).skip ((Makes.refuse _ a).skip
    ((Makes.newBlock _ _ _ _ a).block ((Makes.refuse _ (a + 1)).give _)))

/-- A function keeps its body until it is closed. -/
theorem makes_receive_function_body (entry : Nat) (node : NodeInfo) (path : Path)
    (made : Option Outline) (a n : Nat) :
    Makes ((Construct.function entry node path none).receive .body
        (made.map (Outline.fragment · a))) n
      (.function entry node path (made.map (Outline.fragment · a))) [] [] := by
  cases made <;> exact Makes.pure n _

/-- A function without a body is its entry alone. -/
theorem makes_finish_function_none (entry : Nat) (node : NodeInfo) (path : Path) (n : Nat) :
    Makes (Construct.finish (.function entry node path none)) n (some ⟨entry, [entry]⟩) [] [] :=
  Makes.pure n _

/-- A function with a body gets a last block, and is left from there only. -/
theorem makes_finish_function_some (entry : Nat) (origin : Origin) (body : Fragment) (a : Nat) :
    Makes (Construct.finish (.function entry origin.node origin.path (some body))) a
      (some ⟨entry, [a]⟩) [origin.last a]
      (⟨entry, body.entry, .onward⟩ :: joins body.exits a .onward) :=
  (Makes.addEdge entry body.entry .onward a).draw
    ((Makes.newBlock .exit origin.node origin.path (.fixed "end") a).block
      ((Makes.joinAll body.exits a .onward (a + 1)).give _))

/-- If the body of a function is drafted as outlined, so is the function. -/
theorem drafts_function (hmode : r.mode = .visit)
    (hcategory : table.category? r.tree.label.kind = some .function)
    (h : ∀ p ∈ r.parts table, Drafts table p.2) : Drafts table r := by
  intro a
  have hparts : r.parts table =
      Request.inside? .body r.path (r.tree.child? table .bodies) ++ [] := by
    simp [Request.parts, hmode, hcategory]
  have hbody := fun p hp => h p (hparts ▸ List.mem_append_left _ hp)
  have hserved := makes_inside hbody
    (makes_receive_function_body a r.tree.label.toNodeInfo r.path _ (a + 1))
    (makes_no_parts _ _)
  rw [← hparts] at hserved
  rw [outline_function hmode hcategory, childOutline]
  -- Only a body that built something is followed by a block that ends the function.
  cases hmade : insideOutline table r.path (r.tree.child? table .bodies) with
  | none =>
    rw [hmade] at hserved
    have hmakes := makes_serve (makes_start_function hmode hcategory a) hserved
      (makes_finish_function_none a _ _ _)
    simpa [Outline.fragment, Outline.exits, Outline.blocks, Outline.edges] using hmakes
  | some body =>
    rw [hmade] at hserved
    have hmakes := makes_serve (makes_start_function hmode hcategory a) hserved
      (makes_finish_function_some a (r.origin (.function (infoOf (r.tree.name? table))))
        (body.fragment (a + 1)) _)
    simpa [Outline.blocks, Outline.edges, Outline.fragment, Outline.exits, length_blocks]
      using hmakes

/-! What has no parts, and rows of links. -/

/-- A terminator is one block that is never left. -/
theorem makes_start_terminator (hmode : r.mode = .visit)
    (hcategory : table.category? r.tree.label.kind = some .terminator) (a : Nat) :
    Makes (r.start table) a (.done (some ⟨a, []⟩)) [(r.origin .whole).block .terminator a] [] := by
  simp only [Request.start, hmode, hcategory]
  exact (Makes.refuse _ a).skip ((Makes.newBlock _ _ _ _ a).give _)

/-- Terminators are drafted as outlined. -/
theorem drafts_terminator (hmode : r.mode = .visit)
    (hcategory : table.category? r.tree.label.kind = some .terminator) : Drafts table r := by
  intro a
  have hparts : r.parts table = [] := by simp [Request.parts, hmode, hcategory]
  have hmakes := makes_serve (makes_start_terminator hmode hcategory a)
    (hparts ▸ makes_no_parts _ _) (Makes.pure _ _)
  rw [outline_terminator hmode hcategory]
  exact hmakes

/-- A request for a chain, whatever made it one. -/
theorem drafts_chain (hparts : r.parts table = Request.links r.tree r.path)
    (houtline : outline table r =
      chained ((r.parts table).map fun p => outline table p.2))
    (hstart : ∀ a, Makes (r.start table) a (.chain none) [] [])
    (h : ∀ p ∈ r.parts table, Drafts table p.2) : Drafts table r := by
  intro a
  have hlinks : ∀ p ∈ r.parts table, p.1 = .link ∧ Drafts table p.2 := by
    intro p hp
    refine ⟨?_, h p hp⟩
    obtain ⟨⟨child, index⟩, _, hchild⟩ := List.mem_filterMap.1 (hparts ▸ hp)
    simp only [Option.ite_none_right_eq_some, Option.some.injEq] at hchild
    rw [← hchild.2]
  -- A chain starts with nothing linked.
  obtain ⟨blocks, edges, hserved, hblocks, hedges⟩ := makes_links (r.parts table) hlinks none a
  rw [← chained, ← houtline] at hserved hblocks hedges
  have hmakes := makes_serve (hstart a) hserved (Makes.pure _ _)
  rw [hblocks, hedges]
  simpa using hmakes

/-- A row starts with nothing. -/
theorem makes_start_chain (hmode : r.mode = .chain) (a : Nat) :
    Makes (r.start table) a (.chain none) [] [] := by
  simp only [Request.start, hmode]
  exact Makes.pure a _

/-- If the links of a row are drafted as outlined, so is the row. -/
theorem drafts_links (hmode : r.mode = .chain) (h : ∀ p ∈ r.parts table, Drafts table p.2) :
    Drafts table r :=
  drafts_chain (by simp [Request.parts, hmode]) (outline_chain hmode) (makes_start_chain hmode) h

/-- A container starts with nothing, as a row does. -/
theorem makes_start_container (hmode : r.mode = .visit)
    (hcategory : table.category? r.tree.label.kind = none)
    (hcontainer : table.isContainer r.tree.label = true) (a : Nat) :
    Makes (r.start table) a (.chain none) [] [] := by
  simp only [Request.start, hmode, hcategory, hcontainer, ite_true]
  exact (Makes.refuse _ a).skip (Makes.pure a _)

/-- A statement is one block. -/
theorem makes_start_statement (hmode : r.mode = .visit)
    (hcategory : table.category? r.tree.label.kind = none)
    (hcontainer : table.isContainer r.tree.label = false)
    (hleaf : (r.tree.label.isNamed && !table.isComment r.tree.label.kind) = true) (a : Nat) :
    Makes (r.start table) a (.done (some ⟨a, [a]⟩)) [(r.origin .whole).block .statement a] [] := by
  simp only [Request.start, hmode, hcategory, hcontainer, hleaf, ite_true, ite_false,
    Bool.false_eq_true]
  exact (Makes.refuse _ a).skip ((Makes.newBlock _ _ _ _ a).give _)

/-- Comments and tokens make no block. -/
theorem makes_start_nothing (hmode : r.mode = .visit)
    (hcategory : table.category? r.tree.label.kind = none)
    (hcontainer : table.isContainer r.tree.label = false)
    (hleaf : (r.tree.label.isNamed && !table.isComment r.tree.label.kind) = false) (a : Nat) :
    Makes (r.start table) a (.done none) [] [] := by
  simp only [Request.start, hmode, hcategory, hcontainer, hleaf, ite_false, Bool.false_eq_true]
  exact (Makes.refuse _ a).skip (Makes.pure a _)

/-- If its parts are drafted as outlined, so is a node of no category. -/
theorem drafts_plain (hmode : r.mode = .visit)
    (hcategory : table.category? r.tree.label.kind = none)
    (h : ∀ p ∈ r.parts table, Drafts table p.2) : Drafts table r := by
  cases hcontainer : table.isContainer r.tree.label with
  | true =>
    exact drafts_chain (by simp [Request.parts, hmode, hcategory, hcontainer])
      (outline_container hmode hcategory hcontainer)
      (makes_start_container hmode hcategory hcontainer) h
  | false =>
    intro a
    -- A leaf has no parts: a block is made when it starts, or nothing ever is.
    have hparts : r.parts table = [] := by simp [Request.parts, hmode, hcategory, hcontainer]
    have hserved (construct : Construct) (n : Nat) := @makes_no_parts table construct n
    rw [← hparts] at hserved
    rw [outline_leaf hmode hcategory hcontainer]
    cases hleaf : r.tree.label.isNamed && !table.isComment r.tree.label.kind with
    | true =>
      exact makes_serve (makes_start_statement hmode hcategory hcontainer hleaf a) (hserved _ _)
        (Makes.pure _ _)
    | false =>
      exact makes_serve (makes_start_nothing hmode hcategory hcontainer hleaf a) (hserved _ _)
        (Makes.pure _ _)

end Category

/-- Serving a request adds its outline to the draft and gives its fragment. -/
theorem drafts (table : KindTable) (r : Request) : Drafts table r := by
  -- The trees of the parts are smaller.
  have h : ∀ p ∈ r.parts table, Drafts table p.2 := fun p hp => drafts table p.2
  cases hmode : r.mode with
  | chain => exact drafts_links hmode h
  | visit =>
    cases hcategory : table.category? r.tree.label.kind with
    | none => exact drafts_plain hmode hcategory h
    | some category =>
      cases category with
      | branch => exact drafts_branch hmode hcategory h
      | loop => exact drafts_loop hmode hcategory h
      | choice => exact drafts_choice hmode hcategory h
      | terminator => exact drafts_terminator hmode hcategory
      | function => exact drafts_function hmode hcategory h
termination_by r.tree.size
decreasing_by exact Request.parts_size_lt hp

end Flowchart.Draft
