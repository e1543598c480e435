import Flowchart.Proofs.Kinds.Marks
import Flowchart.Proofs.Outline.Pieces
import Flowchart.Proofs.Outline.Request

/-!
# `Flowchart.Proofs.Outline.Shape`: outlines without paths

The blocks of an outline say where in the syntax tree they come from.
Nothing else depends on these paths: an outline without them has the same
edges, and blocks that differ in their paths only. The outline of a request
without its paths is its shape.

* `withoutPaths`: an outline without paths;
* `SameFlow`, `sameFlow`: what it has in common with the outline;
* `shape`: the shape of a request;
* `shape_eq`: the shape of a request, from the shapes of its parts;
* `shape_path`: it does not depend on where the node is;
* `shape_chain`, `shape_branch` and so on: the shape for each kind of construct.
-/

set_option autoImplicit false

namespace Flowchart.Draft

/-- An origin that does not say where it is. -/
def Origin.withoutPath (origin : Origin) : Origin :=
  { origin with path := [] }

/-- A block that does not say where it comes from. -/
def Block.withoutPath (block : Block) : Block :=
  { block with path := [] }

namespace Outline

mutual

/-- An outline without its paths. -/
def withoutPaths : Outline → Outline
  | .statement origin => .statement origin.withoutPath
  | .terminator origin => .terminator origin.withoutPath
  | .sequel first second => .sequel first.withoutPaths second.withoutPaths
  | .branch origin hasAlternative body alternative =>
    .branch origin.withoutPath hasAlternative (withoutPathsIfAny body)
      (withoutPathsIfAny alternative)
  | .loop origin body => .loop origin.withoutPath (withoutPathsIfAny body)
  | .choice origin arms => .choice origin.withoutPath (armsWithoutPaths arms)
  | .function origin body => .function origin.withoutPath (withoutPathsIfAny body)

/-- A part that may have built nothing, without its paths. -/
def withoutPathsIfAny : Option Outline → Option Outline
  | none => none
  | some outline => some outline.withoutPaths

/-- A row of arms without their paths. -/
def armsWithoutPaths : List (Flow × Outline) → List (Flow × Outline)
  | [] => []
  | (flow, arm) :: arms => (flow, arm.withoutPaths) :: armsWithoutPaths arms

end

/-- Arms without paths, arm by arm. -/
theorem armsWithoutPaths_eq_map (arms : List (Flow × Outline)) :
    armsWithoutPaths arms = arms.map fun arm => (arm.1, arm.2.withoutPaths) := by
  induction arms with
  | nil => rfl
  | cons arm arms ih => rw [armsWithoutPaths, ih, List.map_cons]

/-! ### What does not depend on paths -/

/-- What an outline without its paths has in common with the outline. -/
structure SameFlow (outline : Outline) : Prop where
  size : outline.withoutPaths.size = outline.size
  exits : ∀ a, outline.withoutPaths.exits a = outline.exits a
  edges : ∀ a, outline.withoutPaths.edges a = outline.edges a
  blocks : ∀ a, outline.withoutPaths.blocks a = (outline.blocks a).map Block.withoutPath

section

variable {part : Option Outline}

/-- A part without its paths has as many blocks. -/
theorem sizeIfAny_withoutPaths (h : ∀ o ∈ part, SameFlow o) :
    sizeIfAny (withoutPathsIfAny part) = sizeIfAny part := by
  cases part with
  | none => rfl
  | some outline => exact (h outline rfl).size

/-- A part without its paths has the same exits. -/
theorem exitsIfAny_withoutPaths (h : ∀ o ∈ part, SameFlow o) (missing : List Nat) (a : Nat) :
    exitsIfAny missing (withoutPathsIfAny part) a = exitsIfAny missing part a := by
  cases part with
  | none => rfl
  | some outline => exact (h outline rfl).exits a

/-- A side without its paths has the same edges. -/
theorem sideEdges_withoutPaths (h : ∀ o ∈ part, SameFlow o) (header : Nat) (flow : Flow) (a : Nat) :
    sideEdges header flow (withoutPathsIfAny part) a = sideEdges header flow part a := by
  cases part with
  | none => rfl
  | some outline => simp only [withoutPathsIfAny, sideEdges, (h outline rfl).edges]

/-- A part without its paths has the same edges inside. -/
theorem edgesIfAny_withoutPaths (h : ∀ o ∈ part, SameFlow o) (a : Nat) :
    edgesIfAny (withoutPathsIfAny part) a = edgesIfAny part a := by
  cases part with
  | none => rfl
  | some outline => exact (h outline rfl).edges a

/-- A part without its paths has the blocks without their paths. -/
theorem blocksIfAny_withoutPaths (h : ∀ o ∈ part, SameFlow o) (a : Nat) :
    blocksIfAny (withoutPathsIfAny part) a = (blocksIfAny part a).map Block.withoutPath := by
  cases part with
  | none => rfl
  | some outline => exact (h outline rfl).blocks a

end

/-- What a row of arms without their paths has in common with the row. -/
structure SameArms (arms : List (Flow × Outline)) : Prop where
  size : armsSize (armsWithoutPaths arms) = armsSize arms
  exits : ∀ a, armsExits (armsWithoutPaths arms) a = armsExits arms a
  edges : ∀ header a, armsEdges header (armsWithoutPaths arms) a = armsEdges header arms a
  blocks : ∀ a, armsBlocks (armsWithoutPaths arms) a = (armsBlocks arms a).map Block.withoutPath

/-- A row of arms has the flow that its arms have. -/
theorem sameArms {arms : List (Flow × Outline)} (h : ∀ arm ∈ arms, SameFlow arm.2) :
    SameArms arms := by
  induction arms with
  | nil => exact ⟨rfl, fun _ => rfl, fun _ _ => rfl, fun _ => rfl⟩
  | cons arm arms ih =>
    obtain ⟨flow, arm⟩ := arm
    have hfirst : SameFlow arm := h _ List.mem_cons_self
    have hrest := ih fun other hother => h other (List.mem_cons_of_mem _ hother)
    refine ⟨?_, fun a => ?_, fun header a => ?_, fun a => ?_⟩
    · simp only [armsWithoutPaths, armsSize, hfirst.size, hrest.size]
    · simp only [armsWithoutPaths, armsExits, hfirst.exits, hfirst.size, hrest.exits]
    · simp only [armsWithoutPaths, armsEdges, hfirst.edges, hfirst.size, hrest.edges]
    · simp only [armsWithoutPaths, armsBlocks, hfirst.blocks, hfirst.size, hrest.blocks,
        List.map_append]

/-- An outline without its paths has the same edges, and blocks that differ in
their paths only. -/
theorem sameFlow (outline : Outline) : SameFlow outline := by
  -- Sizes come first in each case: the numbers of later parts depend on them.
  induction outline with
  | statement _ => exact ⟨rfl, fun _ => rfl, fun _ => rfl, fun _ => rfl⟩
  | terminator _ => exact ⟨rfl, fun _ => rfl, fun _ => rfl, fun _ => rfl⟩
  | sequel first second hfirst hsecond =>
    refine ⟨?_, fun a => ?_, fun a => ?_, fun a => ?_⟩
    · simp only [withoutPaths, size, hfirst.size, hsecond.size]
    · simp only [withoutPaths, exits, hfirst.size, hsecond.exits]
    · simp only [withoutPaths, edges, hfirst.size, hfirst.exits, hfirst.edges, hsecond.edges]
    · simp only [withoutPaths, blocks, hfirst.size, hfirst.blocks, hsecond.blocks, List.map_append]
  | branch origin _ body alternative hbody halternative =>
    refine ⟨?_, fun a => ?_, fun a => ?_, fun a => ?_⟩
    · simp only [withoutPaths, size, sizeIfAny_withoutPaths hbody,
        sizeIfAny_withoutPaths halternative]
    · simp only [withoutPaths, exits, sizeIfAny_withoutPaths hbody, exitsIfAny_withoutPaths hbody,
        exitsIfAny_withoutPaths halternative]
    · simp only [withoutPaths, edges, sizeIfAny_withoutPaths hbody, sideEdges_withoutPaths hbody,
        sideEdges_withoutPaths halternative]
    · simp only [withoutPaths, blocks, sizeIfAny_withoutPaths hbody,
        blocksIfAny_withoutPaths hbody, blocksIfAny_withoutPaths halternative, List.map_cons,
        List.map_append]
      rfl
  | loop origin body hbody =>
    refine ⟨?_, fun a => rfl, fun a => ?_, fun a => ?_⟩
    · simp only [withoutPaths, size, sizeIfAny_withoutPaths hbody]
    · simp only [withoutPaths, edges, sideEdges_withoutPaths hbody, exitsIfAny_withoutPaths hbody]
    · simp only [withoutPaths, blocks, blocksIfAny_withoutPaths hbody, List.map_cons]
      rfl
  | choice origin arms harms =>
    have hsame := sameArms harms
    refine ⟨?_, fun a => ?_, fun a => ?_, fun a => ?_⟩
    · simp only [withoutPaths, size, hsame.size]
    · simp only [withoutPaths, exits, hsame.exits]
    · simp only [withoutPaths, edges, hsame.edges]
    · simp only [withoutPaths, blocks, hsame.blocks, List.map_cons]
      rfl
  | function origin body hbody =>
    cases body with
    | none => exact ⟨rfl, fun _ => rfl, fun _ => rfl, fun _ => rfl⟩
    | some body =>
      have hsame := hbody body rfl
      refine ⟨?_, fun a => ?_, fun a => ?_, fun a => ?_⟩
      · simp only [withoutPaths, withoutPathsIfAny, size, hsame.size]
      · simp only [withoutPaths, withoutPathsIfAny, exits, hsame.size]
      · simp only [withoutPaths, withoutPathsIfAny, edges, hsame.size, hsame.edges, hsame.exits]
      · simp only [withoutPaths, withoutPathsIfAny, blocks, hsame.size, hsame.blocks, List.map_cons,
          List.map_append, List.map_nil]
        rfl

/-! ### What is made of parts -/

variable (parts : List (Part × Option Outline))

/-- Parts whose outlines have lost their paths. -/
def partsWithoutPaths (parts : List (Part × Option Outline)) : List (Part × Option Outline) :=
  parts.map fun p => (p.1, withoutPathsIfAny p.2)

/-- What is linked without its paths is linked of parts without theirs. -/
theorem follow_withoutPaths (linked next : Option Outline) :
    follow (withoutPathsIfAny linked) (withoutPathsIfAny next) =
      withoutPathsIfAny (follow linked next) := by
  cases linked <;> cases next <;> rfl

/-- The same of a whole row. -/
theorem chained_withoutPaths :
    chained ((partsWithoutPaths parts).map Prod.snd) =
      withoutPathsIfAny (chained (parts.map Prod.snd)) := by
  -- The links so far are any outline, since the fold goes on from them.
  suffices h : ∀ linked, ((partsWithoutPaths parts).map Prod.snd).foldl follow
      (withoutPathsIfAny linked) = withoutPathsIfAny ((parts.map Prod.snd).foldl follow linked) from
    h none
  induction parts with
  | nil => exact fun _ => rfl
  | cons p parts ih =>
    intro linked
    have hrest := ih (follow linked p.2)
    rwa [← follow_withoutPaths] at hrest

/-- The body among parts without paths is the body without its paths. -/
theorem bodyOf_withoutPaths :
    bodyOf (partsWithoutPaths parts) = withoutPathsIfAny (bodyOf parts) := by
  induction parts with
  | nil => rfl
  | cons p parts ih =>
    obtain ⟨part, made⟩ := p
    cases part with
    | body => rfl
    | link => exact ih
    | alternative => exact ih
    | arm => exact ih

/-- The other part among parts without paths is the other part without its
paths. -/
theorem alternativeOf_withoutPaths :
    alternativeOf (partsWithoutPaths parts) = withoutPathsIfAny (alternativeOf parts) := by
  induction parts with
  | nil => rfl
  | cons p parts ih =>
    obtain ⟨part, made⟩ := p
    cases part with
    | alternative => rfl
    | link => exact ih
    | body => exact ih
    | arm => exact ih

/-- The arms among parts without paths are the arms without theirs. -/
theorem armsOf_withoutPaths :
    armsOf (partsWithoutPaths parts) = armsWithoutPaths (armsOf parts) := by
  rw [armsWithoutPaths_eq_map, armsOf, armsOf, partsWithoutPaths, List.filterMap_map,
    List.map_filterMap]
  congr 1
  funext ⟨part, made⟩
  cases part <;> cases made <;> rfl

end Outline

/-! ### Shapes -/

open Outline

/-- A request that does not say where its node is. -/
def Request.withoutPath (r : Request) : Request :=
  { r with path := [] }

variable {table : KindTable}

/-- Assembling an outline and dropping its paths commute. -/
theorem assemble_withoutPaths (r : Request) (parts : List (Part × Option Outline)) :
    withoutPathsIfAny (r.assemble table parts) =
      r.withoutPath.assemble table (partsWithoutPaths parts) := by
  simp only [Request.assemble, Request.withoutPath, chained_withoutPaths, bodyOf_withoutPaths,
    alternativeOf_withoutPaths, armsOf_withoutPaths]
  cases r.mode with
  | chain => rfl
  | visit =>
    cases table.category? r.tree.label.kind with
    | some category => cases category <;> rfl
    | none => rw [apply_ite withoutPathsIfAny, apply_ite withoutPathsIfAny]; rfl

/-- The outline of a request without its paths. -/
def shape (table : KindTable) (r : Request) : Option Outline :=
  withoutPathsIfAny (outline table r)

/-- The shape of a request comes from the shapes of its parts. -/
theorem shape_eq (table : KindTable) (r : Request) :
    shape table r =
      r.withoutPath.assemble table ((r.parts table).map fun p => (p.1, shape table p.2)) := by
  rw [shape, outline_eq, assemble_withoutPaths, partsWithoutPaths, List.map_map]
  rfl

section

variable (table : KindTable) (r : Request) (a : Nat)

/-- A shape has as many blocks as the outline. -/
theorem sizeIfAny_shape : sizeIfAny (shape table r) = sizeIfAny (outline table r) :=
  sizeIfAny_withoutPaths fun o _ => sameFlow o

/-- A shape has the edges of the outline. -/
theorem edgesIfAny_shape : edgesIfAny (shape table r) a = edgesIfAny (outline table r) a :=
  edgesIfAny_withoutPaths (fun o _ => sameFlow o) a

/-- A shape has the blocks of the outline without their paths. -/
theorem blocksIfAny_shape :
    blocksIfAny (shape table r) a = (blocksIfAny (outline table r) a).map Block.withoutPath :=
  blocksIfAny_withoutPaths (fun o _ => sameFlow o) a

/-- A shape has the fragment of the outline. -/
theorem fragment_shape :
    (shape table r).map (Outline.fragment · a) = (outline table r).map (Outline.fragment · a) := by
  rw [shape]
  cases outline table r with
  | none => rfl
  | some made =>
    rw [withoutPathsIfAny, Option.map_some, Option.map_some, Outline.fragment, Outline.fragment,
      (sameFlow made).exits a]

end

/-! ### Each kind of construct -/

/-- Where a node is makes no difference to what its parts ask for. -/
theorem parts_withoutPath (table : KindTable) (mode : Mode) (t : MarkedTree) (path : Path) :
    ((⟨mode, t, path⟩ : Request).parts table).map (fun p => (p.1, p.2.withoutPath)) =
      ((⟨mode, t, []⟩ : Request).parts table).map fun p => (p.1, p.2.withoutPath) := by
  -- The path of a part is that of the node and a suffix, and both are dropped.
  have hlinks : ∀ path, (Request.links t path).map (fun p => (p.1, p.2.withoutPath)) =
      t.namedChildren.map fun child => (.link, ⟨.visit, child, []⟩) :=
    fun path => Request.map_links fun _ _ => rfl
  have hinside : ∀ (part : Part) (child? : Option MarkedTree),
      (Request.inside? part path child?).map (fun p => (p.1, p.2.withoutPath)) =
        (Request.inside? part [] child?).map fun p => (p.1, p.2.withoutPath) := by
    intro part child?
    cases child? <;> rfl
  cases mode with
  | chain => exact (hlinks path).trans (hlinks []).symm
  | visit =>
    simp only [Request.parts]
    split
    · rw [List.map_append, List.map_append, hinside, hinside]
    · exact hinside _ _
    · rw [Request.armParts, Request.armParts, List.map_map, List.map_map]
      rfl
    · rfl
    · exact hinside _ _
    · split
      · exact (hlinks path).trans (hlinks []).symm
      · rfl

/-- What is made of a node does not depend on where it is. -/
theorem shape_path (table : KindTable) (mode : Mode) (t : MarkedTree) (path : Path) :
    shape table ⟨mode, t, path⟩ = shape table ⟨mode, t, []⟩ := by
  -- The parts are smaller, so the same is known of them.
  have hshapes : ∀ path, ((⟨mode, t, path⟩ : Request).parts table).map
        (fun p => (p.1, shape table p.2)) =
      (((⟨mode, t, path⟩ : Request).parts table).map fun p => (p.1, p.2.withoutPath)).map
        fun p => (p.1, shape table p.2) := by
    intro path
    rw [List.map_map]
    refine List.map_congr_left fun p hp => ?_
    have hless : p.2.tree.size < (⟨mode, t, path⟩ : Request).tree.size := Request.parts_size_lt hp
    exact congrArg (Prod.mk p.1) (shape_path table p.2.mode p.2.tree p.2.path)
  rw [shape_eq, shape_eq, hshapes path, parts_withoutPath, ← hshapes []]
  rfl
termination_by t.size

/-- What is made of a node, wherever it is. -/
def nodeShape (table : KindTable) (t : MarkedTree) : Option Outline :=
  shape table ⟨.visit, t, []⟩

/-- The shapes of the links of a row are the shapes of the named children. -/
theorem shape_links (table : KindTable) (t : MarkedTree) (path : Path) :
    ((Request.links t path).map fun p => (p.1, shape table p.2)).map Prod.snd =
      t.namedChildren.map (nodeShape table) := by
  rw [List.map_map]
  exact Request.map_links fun child index => shape_path table .visit child _

/-- A chain is made of what is made of its links. -/
theorem shape_chain (table : KindTable) (t : MarkedTree) (path : Path) :
    shape table ⟨.chain, t, path⟩ = chained (t.namedChildren.map (nodeShape table)) := by
  rw [shape_eq, ← shape_links table t path]
  rfl

/-- A row of statements is made of what is made of its links. -/
theorem shape_container {t : MarkedTree} (hcategory : table.category? t.label.kind = none)
    (hcontainer : table.isContainer t.label = true) :
    nodeShape table t = chained (t.namedChildren.map (nodeShape table)) := by
  rw [← shape_links table t [], nodeShape, shape_eq]
  simp only [Request.assemble, Request.withoutPath, Request.parts, hcategory, hcontainer, ite_true]

/-- What is made of the chain inside the first child in a role. -/
def childShape (table : KindTable) (t : MarkedTree) (role : Role) : Option Outline :=
  (t.child? table role).bind fun child => shape table ⟨.chain, child, []⟩

/-- The shape of a part is that of the child which plays the role. -/
theorem childOutline_withoutPaths (r : Request) (role : Role) :
    withoutPathsIfAny (childOutline table r role) = childShape table r.tree role := by
  rw [childOutline, insideOutline, childShape]
  cases r.tree.child? table role with
  | none => rfl
  | some child => exact shape_path table .chain child r.path

/-- What is made of an arm. -/
def armShape (table : KindTable) (arm : MarkedTree × Nat) : Option (Flow × Outline) :=
  (shape table ⟨.chain, arm.1, []⟩).map fun made =>
    (.arm arm.2 (arm.1.namedChildren.map fun name => name.label.toNodeInfo), made)

section

variable {t : MarkedTree}

/-- A node at the root of a tree. -/
def nodeOrigin (t : MarkedTree) (caption : Caption) : Origin :=
  ⟨t.label.toNodeInfo, [], caption⟩

/-- The shape of a branch. -/
theorem shape_branch (h : table.category? t.label.kind = some .branch) :
    nodeShape table t = some (.branch (nodeOrigin t (.branch (infoOf (t.condition? table))))
      (t.child? table .alternatives).isSome (childShape table t .bodies)
      (childShape table t .alternatives)) := by
  rw [nodeShape, shape, outline_branch rfl h, withoutPathsIfAny, withoutPaths,
    childOutline_withoutPaths, childOutline_withoutPaths]
  rfl

/-- The shape of a loop. -/
theorem shape_loop (h : table.category? t.label.kind = some .loop) :
    nodeShape table t = some (.loop
      (nodeOrigin t (.loop ((Request.loopWord? t.label.kind).getD [])
        (infoOf (t.condition? table)))) (childShape table t .bodies)) := by
  rw [nodeShape, shape, outline_loop rfl h, withoutPathsIfAny, withoutPaths,
    childOutline_withoutPaths]
  rfl

/-- The shape of a choice. -/
theorem shape_choice (h : table.category? t.label.kind = some .choice) :
    nodeShape table t = some (.choice (nodeOrigin t .choice)
      ((t.arms table).zipIdx.filterMap (armShape table))) := by
  have harms : armsOf (((⟨.visit, t, []⟩ : Request).parts table).map
      fun p => (p.1, shape table p.2)) = (t.arms table).zipIdx.filterMap (armShape table) := by
    simp only [Request.parts, h, Request.armParts, armsOf, List.map_map, List.filterMap_map]
    congr 1
    funext p
    obtain ⟨arm, index⟩ := p
    simp only [Function.comp_apply, armShape, shape_path table .chain arm]
    cases shape table ⟨.chain, arm, []⟩ <;> rfl
  rw [nodeShape, shape_eq, ← harms]
  simp only [Request.assemble, Request.withoutPath, h]
  rfl

/-- The shape of a terminator. -/
theorem shape_terminator (h : table.category? t.label.kind = some .terminator) :
    nodeShape table t = some (.terminator (nodeOrigin t .whole)) := by
  rw [nodeShape, shape, outline_terminator rfl h]
  rfl

/-- The shape of a function. -/
theorem shape_function (h : table.category? t.label.kind = some .function) :
    nodeShape table t = some (.function (nodeOrigin t (.function (infoOf (t.name? table))))
      (childShape table t .bodies)) := by
  rw [nodeShape, shape, outline_function rfl h, withoutPathsIfAny, withoutPaths,
    childOutline_withoutPaths]
  rfl

/-- The shape of a node without structure: a statement, or nothing for comments
and tokens. -/
theorem shape_leaf (h : table.category? t.label.kind = none)
    (hcontainer : table.isContainer t.label = false) :
    nodeShape table t =
      if t.label.isNamed && !table.isComment t.label.kind then
        some (.statement (nodeOrigin t .whole))
      else none := by
  rw [nodeShape, shape, outline_leaf rfl h hcontainer]
  split <;> rfl

end

end Flowchart.Draft
