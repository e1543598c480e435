import Mathlib.Data.List.Forall2
import Flowchart.Proofs.Outline.Shape

/-!
# `Flowchart.Proofs.Outline.Frame`: outlines up to their texts

What a block shows and what an edge is labelled with depends on texts that are
looked up around a construct. Numbers, kinds and the nodes that blocks stand
for do not. Two outlines have the same frame if they differ in such texts
only: they have as many blocks, for the same nodes and of the same kinds, and
the same edges between them in the same order, whatever number their blocks
start with.

A frame is put together from the frames of its parts. There is one law for
each kind of construct.

* `withoutTexts`, `withoutFlow`: what is left of a block and of an edge;
* `SameFrame`: outlines with the same frame;
* `SameFrame.sequel` and so on: the frame of a construct.
-/

set_option autoImplicit false

namespace Flowchart.Draft

/-- A block that says neither what it shows nor where it comes from. -/
def Block.withoutTexts (block : Block) : Block :=
  { block with path := [], caption := .whole }

/-- An edge that does not say what it stands for. -/
def Edge.withoutFlow (edge : Edge) : Edge :=
  { edge with flow := .onward }

namespace Outline

/-- Two outlines differ in texts only. -/
structure SameFrame (outline other : Outline) : Prop where
  size : outline.size = other.size
  exits : ∀ a, outline.exits a = other.exits a
  blocks : ∀ a, (outline.blocks a).map Block.withoutTexts = (other.blocks a).map Block.withoutTexts
  edges : ∀ a, (outline.edges a).map Edge.withoutFlow = (other.edges a).map Edge.withoutFlow

/-- The same of parts that may have built nothing. -/
abbrev SameFrames : Option Outline → Option Outline → Prop :=
  Option.Rel SameFrame

/-- The same of arms. -/
abbrev SameArmFrames : List (Flow × Outline) → List (Flow × Outline) → Prop :=
  List.Forall₂ fun arm other => SameFrame arm.2 other.2

namespace SameFrames

variable {part other : Option Outline}

/-- Parts that differ in texts only have as many blocks. -/
theorem size (h : SameFrames part other) : sizeIfAny part = sizeIfAny other := by
  cases h with
  | none => rfl
  | some h => exact h.size

/-- Parts that differ in texts only have the same exits. -/
theorem exits (h : SameFrames part other) (missing : List Nat) (a : Nat) :
    exitsIfAny missing part a = exitsIfAny missing other a := by
  cases h with
  | none => rfl
  | some h => exact h.exits a

/-- Parts that differ in texts only have the same blocks but for the texts. -/
theorem blocks (h : SameFrames part other) (a : Nat) :
    (blocksIfAny part a).map Block.withoutTexts = (blocksIfAny other a).map Block.withoutTexts := by
  cases h with
  | none => rfl
  | some h => exact h.blocks a

/-- Parts that differ in texts only have the same edges but for the labels. -/
theorem edges (h : SameFrames part other) (a : Nat) :
    (edgesIfAny part a).map Edge.withoutFlow = (edgesIfAny other a).map Edge.withoutFlow := by
  cases h with
  | none => rfl
  | some h => exact h.edges a

/-- The same of the edges of a side. -/
theorem sideEdges (h : SameFrames part other) (header : Nat) (flow : Flow) (a : Nat) :
    (sideEdges header flow part a).map Edge.withoutFlow =
      (Outline.sideEdges header flow other a).map Edge.withoutFlow := by
  cases h with
  | none => rfl
  | some h => simp only [Outline.sideEdges, List.map_append, h.edges a]

end SameFrames

namespace SameArmFrames

variable {arms others : List (Flow × Outline)}

/-- Arms that differ in texts only have as many blocks. -/
theorem size (h : SameArmFrames arms others) : armsSize arms = armsSize others := by
  induction h with
  | nil => rfl
  | cons h _ ih => rw [armsSize, armsSize, h.size, ih]

/-- Arms that differ in texts only have the same exits. -/
theorem exits (h : SameArmFrames arms others) (a : Nat) :
    armsExits arms a = armsExits others a := by
  induction h generalizing a with
  | nil => rfl
  | cons h _ ih => rw [armsExits, armsExits, h.size, h.exits, ih]

/-- Arms that differ in texts only have the same blocks but for the texts. -/
theorem blocks (h : SameArmFrames arms others) (a : Nat) :
    (armsBlocks arms a).map Block.withoutTexts = (armsBlocks others a).map Block.withoutTexts := by
  induction h generalizing a with
  | nil => rfl
  | cons h _ ih =>
    rw [armsBlocks, armsBlocks, List.map_append, List.map_append, h.size, h.blocks, ih]

/-- Arms that differ in texts only have the same edges but for the labels. -/
theorem edges (h : SameArmFrames arms others) (header a : Nat) :
    (armsEdges header arms a).map Edge.withoutFlow =
      (armsEdges header others a).map Edge.withoutFlow := by
  induction h generalizing a with
  | nil => rfl
  | cons h _ ih =>
    rw [armsEdges, armsEdges, List.map_append, List.map_append, List.map_cons, List.map_cons,
      h.size, h.edges, ih]
    rfl

end SameArmFrames

/-! ### Constructs -/

namespace SameFrame

variable {origin origin' : Origin}

/-- Blocks of one node differ in texts only. -/
theorem block (h : origin.node = origin'.node) (kind : BlockKind) (a : Nat) :
    (origin.block kind a).withoutTexts = (origin'.block kind a).withoutTexts := by
  rw [Block.withoutTexts, Block.withoutTexts, Origin.block, Origin.block, h]

/-- Statements of one node differ in texts only. -/
theorem statement (h : origin.node = origin'.node) :
    SameFrame (.statement origin) (.statement origin') :=
  ⟨rfl, fun _ => rfl, fun a => congrArg (fun made => [made]) (block h .statement a), fun _ => rfl⟩

/-- Terminators of one node differ in texts only. -/
theorem terminator (h : origin.node = origin'.node) :
    SameFrame (.terminator origin) (.terminator origin') :=
  ⟨rfl, fun _ => rfl, fun a => congrArg (fun made => [made]) (block h .terminator a), fun _ => rfl⟩

/-- What is made of parts that differ in texts only does so itself: one thing
after another. -/
theorem sequel {first first' second second' : Outline} (h : SameFrame first first')
    (h' : SameFrame second second') :
    SameFrame (.sequel first second) (.sequel first' second') where
  size := by rw [Outline.size, Outline.size, h.size, h'.size]
  exits a := by rw [Outline.exits, Outline.exits, h.size, h'.exits]
  blocks a := by
    rw [Outline.blocks, Outline.blocks, List.map_append, List.map_append, h.size, h.blocks,
      h'.blocks]
  edges a := by
    rw [Outline.edges, Outline.edges, List.map_append, List.map_append, List.map_append,
      List.map_append, h.size, h.exits, h.edges, h'.edges]

/-- The same of a branch. -/
theorem branch (h : origin.node = origin'.node) (hasAlternative : Bool)
    {body body' alternative alternative' : Option Outline} (hbody : SameFrames body body')
    (halternative : SameFrames alternative alternative') :
    SameFrame (.branch origin hasAlternative body alternative)
      (.branch origin' hasAlternative body' alternative') where
  size := by rw [Outline.size, Outline.size, hbody.size, halternative.size]
  exits a := by
    rw [Outline.exits, Outline.exits, hbody.size, hbody.exits, halternative.exits]
  blocks a := by
    rw [Outline.blocks, Outline.blocks, List.map_cons, List.map_cons, List.map_append,
      List.map_append, block h, hbody.size, hbody.blocks, halternative.blocks]
  edges a := by
    rw [Outline.edges, Outline.edges, List.map_append, List.map_append, hbody.size,
      hbody.sideEdges, halternative.sideEdges]

/-- The same of a loop. -/
theorem loop (h : origin.node = origin'.node) {body body' : Option Outline}
    (hbody : SameFrames body body') : SameFrame (.loop origin body) (.loop origin' body') where
  size := by rw [Outline.size, Outline.size, hbody.size]
  exits _ := rfl
  blocks a := by
    rw [Outline.blocks, Outline.blocks, List.map_cons, List.map_cons, block h, hbody.blocks]
  edges a := by
    rw [Outline.edges, Outline.edges, List.map_append, List.map_append, hbody.sideEdges,
      hbody.exits]

/-- The same of a choice. -/
theorem choice (h : origin.node = origin'.node) {arms arms' : List (Flow × Outline)}
    (harms : SameArmFrames arms arms') :
    SameFrame (.choice origin arms) (.choice origin' arms') where
  size := by rw [Outline.size, Outline.size, harms.size]
  exits a := by rw [Outline.exits, Outline.exits, harms.exits]
  blocks a := by
    rw [Outline.blocks, Outline.blocks, List.map_cons, List.map_cons, block h, harms.blocks]
  edges a := by rw [Outline.edges, Outline.edges, harms.edges]

/-- The same of a function. -/
theorem function (h : origin.node = origin'.node) {body body' : Option Outline}
    (hbody : SameFrames body body') :
    SameFrame (.function origin body) (.function origin' body') := by
  cases hbody with
  | none =>
    exact ⟨rfl, fun _ => rfl, fun a => congrArg (fun made => [made]) (block h .entry a),
      fun _ => rfl⟩
  | some hbody =>
    have hlast : ∀ a, (origin.last a).withoutTexts = (origin'.last a).withoutTexts := by
      intro a
      rw [Block.withoutTexts, Block.withoutTexts, Origin.last, Origin.last, h]
    refine ⟨?_, fun a => ?_, fun a => ?_, fun a => ?_⟩
    · rw [Outline.size, Outline.size, hbody.size]
    · rw [Outline.exits, Outline.exits, hbody.size]
    · simp only [Outline.blocks, List.map_cons, List.map_append, List.map_nil, hbody.size,
        hbody.blocks, block h, hlast]
    · simp only [Outline.edges, List.map_cons, List.map_append, hbody.size, hbody.edges,
        hbody.exits]

end SameFrame

/-- The same of a link and what it is linked to, where either may be missing. -/
theorem SameFrames.follow {linked linked' next next' : Option Outline}
    (h : SameFrames linked linked') (h' : SameFrames next next') :
    SameFrames (follow linked next) (follow linked' next') :=
  follow_rel SameFrame.sequel h h'

end Outline

end Flowchart.Draft
