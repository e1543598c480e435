import Flowchart.Draft.Basic
import Flowchart.Draft.Lookup

/-!
# `Flowchart.Draft.Construct`: how constructs become blocks

A request asks for one node to be drafted, as a construct or as the chain of
its named children. Serving it opens a construct, serves the requests for
its parts one after the other and hands each result over as it comes, and
finishes the construct. What parts there are depends on the node alone.

The result is a fragment, unless nothing was drafted: the block where
control enters, and the blocks it leaves from. Whoever receives a fragment
draws the edges that join it to the rest.

Each search for a child or an arm may come upon a kind that cannot be looked
up. That is noted where the search is made: the condition or the name is
looked for before there is a block, the first part right behind it, and the
other part of a branch when its body is done.

- `parts_size_lt`: a part is smaller than what it is a part of.
-/

set_option autoImplicit false

namespace Flowchart.Draft

/-- A stretch of a draft with one way in. -/
structure Fragment where
  entry : Nat
  /-- The blocks that control leaves from, in order. -/
  exits : List Nat
deriving DecidableEq, Repr

/-- How a node is to be drafted. -/
inductive Mode where
  /-- As what its kind says it is. -/
  | visit
  /-- As the chain of its named children. -/
  | chain
deriving DecidableEq, Repr

/-- A node that is to be drafted. -/
structure Request where
  mode : Mode
  tree : MarkedTree
  path : Path

/-- What a part is to its construct. -/
inductive Part where
  /-- One of a chain of nodes. -/
  | link
  | body
  | alternative
  /-- An arm of a choice, and the nodes that name it. -/
  | arm (index : Nat) (names : List NodeInfo)

/-- A construct whose parts are being drafted, with what it knows of them. -/
inductive Construct where
  /-- Nothing is missing. -/
  | done (result : Option Fragment)
  /-- A chain, and the fragment of the links so far. -/
  | chain (linked : Option Fragment)
  /-- A branch, and the kind that ended the search for its other part. -/
  | branch (header : Nat) (hasAlternative : Bool) (refusal : Option Json)
    (whenTrue whenFalse : Option Fragment)
  | loop (header : Nat)
  /-- A choice, and where its arms leave from. -/
  | choice (header : Nat) (exits : List Nat)
  | function (entry : Nat) (node : NodeInfo) (path : Path) (body : Option Fragment)

namespace Request

/-- The named children of a node, one after the other. -/
def links (t : MarkedTree) (path : Path) : List (Part × Request) :=
  t.children.zipIdx.filterMap fun (child, index) =>
    if child.label.isNamed then some (.link, ⟨.visit, child, path ++ [.child index]⟩) else none

/-- The chain inside a child, if there is one. -/
def inside? (part : Part) (path : Path) : Option MarkedTree → List (Part × Request)
  | some child => [(part, ⟨.chain, child, path⟩)]
  | none => []

/-- The chains inside the arms of a choice. -/
def armParts (table : KindTable) (t : MarkedTree) (path : Path) : List (Part × Request) :=
  (t.arms table).zipIdx.map fun (arm, index) =>
    (.arm index (arm.namedChildren.map fun name => name.label.toNodeInfo),
      ⟨.chain, arm, path ++ [.arm index]⟩)

/-- The parts of a construct that are to be drafted, in order. -/
def parts (table : KindTable) (r : Request) : List (Part × Request) :=
  match r.mode with
  | .chain => links r.tree r.path
  | .visit =>
    match table.category? r.tree.label.kind with
    | some .branch =>
      inside? .body r.path (r.tree.child? table .bodies) ++
        inside? .alternative r.path (r.tree.child? table .alternatives)
    | some .loop => inside? .body r.path (r.tree.child? table .bodies)
    | some .choice => armParts table r.tree r.path
    | some .terminator => []
    | some .function => inside? .body r.path (r.tree.child? table .bodies)
    | none => if table.isContainer r.tree.label then links r.tree r.path else []

/-- The links of a row have fewer nodes than the row. -/
theorem size_lt_of_mem_links {t : MarkedTree} {path : Path} {p : Part × Request}
    (h : p ∈ links t path) : p.2.tree.size < t.size := by
  obtain ⟨⟨child, index⟩, hmem, hp⟩ := List.mem_filterMap.1 h
  have hchild : child ∈ t.children := List.fst_mem_of_mem_zipIdx hmem
  simp only [Option.ite_none_right_eq_some, Option.some.injEq] at hp
  obtain ⟨_, rfl⟩ := hp
  exact Tree.size_lt_of_mem hchild

/-- What is served inside a child has fewer nodes than the parent. -/
theorem size_lt_of_mem_inside {table : KindTable} {role : Role} {t : MarkedTree} {part : Part}
    {path : Path} {p : Part × Request} (h : p ∈ inside? part path (t.child? table role)) :
    p.2.tree.size < t.size := by
  cases hc : t.child? table role with
  | none => simp [hc, inside?] at h
  | some child =>
    simp only [hc, inside?, List.mem_singleton] at h
    subst h
    exact MarkedTree.size_lt_of_find hc

/-- The arms of a choice have fewer nodes than the choice. -/
theorem size_lt_of_mem_armParts {table : KindTable} {t : MarkedTree} {path : Path}
    {p : Part × Request} (h : p ∈ armParts table t path) : p.2.tree.size < t.size := by
  obtain ⟨⟨arm, index⟩, hmem, rfl⟩ := List.mem_map.1 h
  exact MarkedTree.size_lt_of_mem_arms (List.fst_mem_of_mem_zipIdx hmem)

/-- Parts have fewer nodes than what they are parts of. -/
theorem parts_size_lt {table : KindTable} {r : Request} {p : Part × Request}
    (h : p ∈ r.parts table) : p.2.tree.size < r.tree.size := by
  unfold parts at h
  split at h
  · exact size_lt_of_mem_links h
  · split at h
    · rcases List.mem_append.1 h with h | h <;> exact size_lt_of_mem_inside h
    · exact size_lt_of_mem_inside h
    · exact size_lt_of_mem_armParts h
    · cases h
    · exact size_lt_of_mem_inside h
    · split at h
      · exact size_lt_of_mem_links h
      · cases h

/-- The word that stands for a loop in its label: what its name says. -/
def loopWord? : Json → Option Text
  | .string name =>
    if List.isPrefixOf (Text.ofString "for") name then some "for"
    else if name == "loop_expression" then some "loop"
    else some "while"
  | _ => none

/-- Makes the block of a loop. There is no word for a loop without a name;
that shows when its condition has been cut. -/
def loopHeader (node : NodeInfo) (path : Path) (condition : Option NodeInfo) : Drafting Nat := do
  let word ← match loopWord? node.kind with
    | some word => pure word
    | none => do
      condition.forM cut
      fail (.lacks node.kind.kind "startswith")
      pure []
  newBlock .loop node path (.loop word condition)

/-- Opens a construct: makes the block that control enters it by. -/
def start (table : KindTable) (r : Request) : Drafting Construct := do
  let node := r.tree.label.toNodeInfo
  let infoOf (t : Option MarkedTree) : Option NodeInfo := t.map fun t => t.label.toNodeInfo
  match r.mode with
  | .chain => return .chain none
  | .visit =>
    -- The kind is looked up first, so a kind that is no key is refused here.
    refuse (MarkedTree.firstRefused? [r.tree])
    match table.category? node.kind with
    | some .branch =>
      -- The searches come in this order, with the block between them. A refusal can leave the
      -- block.
      refuse (r.tree.childRefusal? table .conditions)
      let header ← newBlock .branch node r.path (.branch (infoOf (r.tree.condition? table)))
      refuse (r.tree.childRefusal? table .bodies)
      return .branch header (r.tree.child? table .alternatives).isSome
        (r.tree.childRefusal? table .alternatives) none none
    | some .loop =>
      refuse (r.tree.childRefusal? table .conditions)
      let header ← loopHeader node r.path (infoOf (r.tree.condition? table))
      refuse (r.tree.childRefusal? table .bodies)
      return .loop header
    | some .choice =>
      let header ← newBlock .choice node r.path .choice
      refuse (r.tree.armRefusal? table)
      return .choice header []
    | some .terminator =>
      let block ← newBlock .terminator node r.path .whole
      return .done (some ⟨block, []⟩)
    | some .function =>
      refuse (r.tree.childRefusal? table .names)
      let entry ← newBlock .entry node r.path (.function (infoOf (r.tree.name? table)))
      refuse (r.tree.childRefusal? table .bodies)
      return .function entry node r.path none
    | none =>
      if table.isContainer r.tree.label then return .chain none
      else if node.isNamed && !table.isComment node.kind then
        let block ← newBlock .statement node r.path .whole
        return .done (some ⟨block, [block]⟩)
      else return .done none

end Request

namespace Construct

/-- Draws edges from several blocks to one. -/
def joinAll (sources : List Nat) (target : Nat) (flow : Flow) : Drafting Unit :=
  sources.forM fun source => addEdge source target flow

/-- Takes the result of a part and draws the edges into and out of it. -/
def receive (construct : Construct) (part : Part) (result : Option Fragment) :
    Drafting Construct :=
  match result with
  | none => pure construct
  | some fragment =>
    match construct, part with
    | .chain none, .link => return .chain (some fragment)
    | .chain (some linked), .link => do
      joinAll linked.exits fragment.entry .onward
      return .chain (some ⟨linked.entry, fragment.exits⟩)
    | .branch header hasAlternative refusal _ whenFalse, .body => do
      addEdge header fragment.entry .whenTrue
      return .branch header hasAlternative refusal (some fragment) whenFalse
    | .branch header hasAlternative refusal whenTrue _, .alternative => do
      addEdge header fragment.entry .whenFalse
      return .branch header hasAlternative refusal whenTrue (some fragment)
    | .loop header, .body => do
      addEdge header fragment.entry .body
      joinAll fragment.exits header .next
      return .loop header
    | .choice header exits, .arm index names => do
      addEdge header fragment.entry (.arm index names)
      return .choice header (exits ++ fragment.exits)
    | .function entry node path _, .body => return .function entry node path (some fragment)
    -- No other construct is ever handed such a part.
    | construct, _ => pure construct

/-- Numbers without repetitions, the first of each kept. -/
def distinct (numbers : List Nat) : List Nat :=
  numbers.foldl (fun kept n => if kept.contains n then kept else kept ++ [n]) []

/-- Where control leaves a branch from: the ends of its parts, and the branch
itself where its body or the other part is missing. An other part that is
there and drafts nothing leaves no way out. -/
def branchExits (header : Nat) (hasAlternative : Bool) (whenTrue whenFalse : Option Fragment) :
    List Nat :=
  let bodyExits := whenTrue.elim [header] Fragment.exits
  let otherExits := whenFalse.elim (if hasAlternative then [] else [header]) Fragment.exits
  distinct (bodyExits ++ otherExits)

/-- Closes a construct whose parts are all drafted. -/
def finish : Construct → Drafting (Option Fragment)
  | .done result => pure result
  | .chain linked => pure linked
  | .branch header hasAlternative refusal whenTrue whenFalse => do
    -- A condition that could not be shortened ends the draft here, behind both sides.
    refuse refusal
    return some ⟨header, branchExits header hasAlternative whenTrue whenFalse⟩
  | .loop header => pure (some ⟨header, [header]⟩)
  | .choice header exits =>
    pure (some ⟨header, distinct (if exits.isEmpty then [header] else exits)⟩)
  | .function entry _ _ none => pure (some ⟨entry, [entry]⟩)
  | .function entry node path (some body) => do
    addEdge entry body.entry .onward
    -- The last block is numbered behind those of the body.
    let last ← newBlock .exit node path (.fixed "end")
    joinAll body.exits last .onward
    return some ⟨entry, [last]⟩

end Construct

end Flowchart.Draft
