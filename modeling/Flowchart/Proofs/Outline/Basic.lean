import Flowchart.Proofs.Draft.Adds

/-!
# `Flowchart.Proofs.Outline.Basic`: structured flow

An outline is the structured program that a draft was made from: statements
and terminators, one thing after another, and branches, loops, choices and
functions with what was made of their parts. A part that built nothing is
not there. An outline has at least one block.

An outline knows no block numbers. Given the number `a` of its first block,
its blocks are numbered from `a` on without gaps, and control enters at `a`.

* `blocks`, `exits`, `edges`: the graph that an outline stands for, with the
  blocks and edges in the order in which they are made;
* `fragment`: what the draft of an outline hands to its surroundings;
* `length_blocks`, `number_blocks`: the blocks of an outline are numbered
  without gaps;
* `induction`: what passes from the parts of an outline to the outline holds
  of every outline.
-/

set_option autoImplicit false

namespace Flowchart.Draft

/-- Where a block comes from. -/
structure Origin where
  node : NodeInfo
  path : Path
  caption : Caption

/-- The block of a kind that comes from an origin. -/
def Origin.block (origin : Origin) (kind : BlockKind) (number : Nat) : Block :=
  ⟨number, kind, origin.node, origin.path, origin.caption⟩

/-- The block that ends a function. -/
def Origin.last (origin : Origin) (number : Nat) : Block :=
  ⟨number, .exit, origin.node, origin.path, .fixed "end"⟩

/-- A structured program. -/
inductive Outline where
  | statement (origin : Origin)
  /-- Control goes in and never comes out. -/
  | terminator (origin : Origin)
  /-- One thing after another. -/
  | sequel (first second : Outline)
  /-- A branch, whether it has another part, and what the parts built. -/
  | branch (origin : Origin) (hasAlternative : Bool) (body alternative : Option Outline)
  | loop (origin : Origin) (body : Option Outline)
  /-- A choice, and its arms that built something. -/
  | choice (origin : Origin) (arms : List (Flow × Outline))
  | function (origin : Origin) (body : Option Outline)

namespace Outline

mutual

/-- How many blocks an outline has. -/
def size : Outline → Nat
  | .statement _ => 1
  | .terminator _ => 1
  | .sequel first second => first.size + second.size
  | .branch _ _ body alternative => 1 + sizeIfAny body + sizeIfAny alternative
  | .loop _ body => 1 + sizeIfAny body
  | .choice _ arms => 1 + armsSize arms
  | .function _ none => 1
  | .function _ (some body) => 1 + body.size + 1

/-- How many blocks a part has that may have built nothing. -/
def sizeIfAny : Option Outline → Nat
  | none => 0
  | some outline => outline.size

/-- How many blocks a row of arms has. -/
def armsSize : List (Flow × Outline) → Nat
  | [] => 0
  | (_, arm) :: arms => arm.size + armsSize arms

end

mutual

/-- The blocks of an outline, the first of which has the given number. -/
def blocks : Outline → Nat → List Block
  | .statement origin, a => [origin.block .statement a]
  | .terminator origin, a => [origin.block .terminator a]
  | .sequel first second, a => first.blocks a ++ second.blocks (a + first.size)
  | .branch origin _ body alternative, a =>
    origin.block .branch a ::
      (blocksIfAny body (a + 1) ++ blocksIfAny alternative (a + 1 + sizeIfAny body))
  | .loop origin body, a => origin.block .loop a :: blocksIfAny body (a + 1)
  | .choice origin arms, a => origin.block .choice a :: armsBlocks arms (a + 1)
  | .function origin none, a => [origin.block .entry a]
  | .function origin (some body), a =>
    origin.block .entry a :: (body.blocks (a + 1) ++ [origin.last (a + 1 + body.size)])

/-- The blocks of a part that may have built nothing. -/
def blocksIfAny : Option Outline → Nat → List Block
  | none, _ => []
  | some outline, a => outline.blocks a

/-- The blocks of a row of arms. -/
def armsBlocks : List (Flow × Outline) → Nat → List Block
  | [], _ => []
  | (_, arm) :: arms, a => arm.blocks a ++ armsBlocks arms (a + arm.size)

end

mutual

/-- The blocks that control leaves an outline from. -/
def exits : Outline → Nat → List Nat
  | .statement _, a => [a]
  | .terminator _, _ => []
  | .sequel first second, a => second.exits (a + first.size)
  | .branch _ hasAlternative body alternative, a =>
    Construct.distinct (exitsIfAny [a] body (a + 1) ++
      exitsIfAny (if hasAlternative then [] else [a]) alternative (a + 1 + sizeIfAny body))
  | .loop _ _, a => [a]
  | .choice _ arms, a =>
    Construct.distinct
      (if (armsExits arms (a + 1)).isEmpty then [a] else armsExits arms (a + 1))
  | .function _ none, a => [a]
  | .function _ (some body), a => [a + 1 + body.size]

/-- The exits of a part, or others where it built nothing. -/
def exitsIfAny (missing : List Nat) : Option Outline → Nat → List Nat
  | none, _ => missing
  | some outline, a => outline.exits a

/-- The exits of a row of arms. -/
def armsExits : List (Flow × Outline) → Nat → List Nat
  | [], _ => []
  | (_, arm) :: arms, a => arm.exits a ++ armsExits arms (a + arm.size)

end

mutual

/-- The edges of an outline. -/
def edges : Outline → Nat → List Edge
  | .statement _, _ => []
  | .terminator _, _ => []
  | .sequel first second, a =>
    first.edges a ++ second.edges (a + first.size) ++
      joins (first.exits a) (a + first.size) .onward
  | .branch _ _ body alternative, a =>
    sideEdges a .whenTrue body (a + 1) ++
      sideEdges a .whenFalse alternative (a + 1 + sizeIfAny body)
  | .loop _ body, a => sideEdges a .body body (a + 1) ++ joins (exitsIfAny [] body (a + 1)) a .next
  | .choice _ arms, a => armsEdges a arms (a + 1)
  | .function _ none, _ => []
  | .function _ (some body), a =>
    body.edges (a + 1) ++ ⟨a, a + 1, .onward⟩ ::
      joins (body.exits (a + 1)) (a + 1 + body.size) .onward

/-- The edges of a part that may have built nothing, and the one into it. -/
def sideEdges (header : Nat) (flow : Flow) : Option Outline → Nat → List Edge
  | none, _ => []
  | some side, a => side.edges a ++ [⟨header, a, flow⟩]

/-- The edges of a row of arms, and those into them. -/
def armsEdges (header : Nat) : List (Flow × Outline) → Nat → List Edge
  | [], _ => []
  | (flow, arm) :: arms, a =>
    arm.edges a ++ ⟨header, a, flow⟩ :: armsEdges header arms (a + arm.size)

end

/-- What the draft of an outline hands to its surroundings. -/
def fragment (outline : Outline) (a : Nat) : Fragment :=
  ⟨a, outline.exits a⟩

/-- Nothing has no blocks. -/
@[simp]
theorem blocksIfAny_none (a : Nat) : blocksIfAny none a = [] := rfl

/-- A part that built something has its blocks. -/
@[simp]
theorem blocksIfAny_some (outline : Outline) (a : Nat) :
    blocksIfAny (some outline) a = outline.blocks a := rfl

/-- The edges of a part that may have built nothing. -/
def edgesIfAny : Option Outline → Nat → List Edge
  | none, _ => []
  | some outline, a => outline.edges a

/-- Nothing has no edges. -/
@[simp]
theorem edgesIfAny_none (a : Nat) : edgesIfAny none a = [] := rfl

/-- A part that built something has its edges. -/
@[simp]
theorem edgesIfAny_some (outline : Outline) (a : Nat) :
    edgesIfAny (some outline) a = outline.edges a := rfl

/-- What passes from the parts of an outline to the outline holds of every
outline. -/
@[induction_eliminator]
theorem induction {motive : Outline → Prop}
    (statement : ∀ origin, motive (.statement origin))
    (terminator : ∀ origin, motive (.terminator origin))
    (sequel : ∀ first second, motive first → motive second → motive (.sequel first second))
    (branch : ∀ origin hasAlternative body alternative, (∀ o ∈ body, motive o) →
      (∀ o ∈ alternative, motive o) → motive (.branch origin hasAlternative body alternative))
    (loop : ∀ origin body, (∀ o ∈ body, motive o) → motive (.loop origin body))
    (choice : ∀ origin arms, (∀ arm ∈ arms, motive arm.2) → motive (.choice origin arms))
    (function : ∀ origin body, (∀ o ∈ body, motive o) → motive (.function origin body))
    (outline : Outline) : motive outline :=
  -- The recursor has motives for parts, rows of arms and arms: all of what they hold.
  @Outline.rec motive (fun part => ∀ o ∈ part, motive o) (fun arms => ∀ arm ∈ arms, motive arm.2)
    (fun arm => motive arm.2) statement terminator sequel branch loop choice function
    (fun _ h => nomatch h)
    (fun _ ih _ h => Option.some.inj h ▸ ih)
    (fun _ h => nomatch h)
    (fun _ _ ih ihs _ h => (List.mem_cons.1 h).elim (fun h => h ▸ ih) (ihs _))
    (fun _ _ ih => ih) outline

/-! ### Sizes and numbers -/

/-- An outline has a block at least. -/
theorem size_pos (outline : Outline) : 0 < outline.size := by
  induction outline with
  | statement _ => simp [size]
  | terminator _ => simp [size]
  | sequel first second ihFirst ihSecond =>
    simp only [size]
    omega
  | branch _ _ body alternative _ _ =>
    simp only [size]
    omega
  | loop _ body _ =>
    simp only [size]
    omega
  | choice _ arms _ =>
    simp only [size]
    omega
  | function _ body _ =>
    cases body with
    | none => exact Nat.one_pos
    | some body =>
      simp only [size]
      omega

/-- A number and the ones behind it. -/
theorem cons_range' (a n : Nat) : a :: List.range' (a + 1) n = List.range' a (1 + n) := by
  rw [Nat.add_comm 1, List.range'_succ]

/-- The blocks of an outline are numbered without gaps, whatever number they
start with. -/
def Numbered (outline : Outline) : Prop :=
  ∀ a, (outline.blocks a).map Block.number = List.range' a outline.size

/-- The blocks of a part are numbered without gaps if those of its outline are.
-/
theorem number_blocksIfAny {part : Option Outline} (h : ∀ o ∈ part, o.Numbered) (a : Nat) :
    (blocksIfAny part a).map Block.number = List.range' a (sizeIfAny part) := by
  cases part with
  | none => rfl
  | some outline => exact h outline rfl a

/-- The blocks of a row of arms are numbered without gaps if those of each arm
are. -/
theorem number_armsBlocks {arms : List (Flow × Outline)} (h : ∀ arm ∈ arms, arm.2.Numbered)
    (a : Nat) : (armsBlocks arms a).map Block.number = List.range' a (armsSize arms) := by
  induction arms generalizing a with
  | nil => rfl
  | cons arm arms ih =>
    -- Where an arm ends, the numbers of the next one start.
    have harm : arm.2.Numbered := h arm List.mem_cons_self
    have harms := ih fun other hother => h other (List.mem_cons_of_mem arm hother)
    rw [armsBlocks, armsSize, List.map_append, harm a, harms, List.range'_append_1]

/-- The blocks of an outline are numbered without gaps. -/
theorem number_blocks (outline : Outline) (a : Nat) :
    (outline.blocks a).map Block.number = List.range' a outline.size := by
  suffices h : outline.Numbered from h a
  induction outline with
  | statement _ => exact fun _ => rfl
  | terminator _ => exact fun _ => rfl
  | sequel first second hfirst hsecond =>
    intro a
    rw [blocks, size, List.map_append, hfirst a, hsecond, List.range'_append_1]
  | branch _ _ body alternative hbody halternative =>
    intro a
    simp only [blocks, size, List.map_cons, List.map_append, number_blocksIfAny hbody,
      number_blocksIfAny halternative, List.range'_append_1, Nat.add_assoc 1, ← cons_range']
    rfl
  | loop _ body hbody =>
    intro a
    simp only [blocks, size, List.map_cons, number_blocksIfAny hbody, ← cons_range']
    rfl
  | choice _ arms harms =>
    intro a
    simp only [blocks, size, List.map_cons, number_armsBlocks harms, ← cons_range']
    rfl
  | function _ body hbody =>
    intro a
    cases body with
    | none => rfl
    | some body =>
      -- The block that ends a function has the number behind its body.
      have hbody : body.Numbered := hbody body rfl
      simp only [blocks, size, List.map_cons, List.map_append, hbody (a + 1), Nat.add_assoc 1,
        ← cons_range', List.range'_concat]
      simp [Origin.block, Origin.last]

/-- An outline has as many blocks as its size says. -/
theorem length_blocks (outline : Outline) (a : Nat) : (outline.blocks a).length = outline.size := by
  have h := congrArg List.length (number_blocks outline a)
  rwa [List.length_map, List.length_range'] at h

/-- A part has as many blocks as its size says. -/
theorem length_blocksIfAny (part : Option Outline) (a : Nat) :
    (blocksIfAny part a).length = sizeIfAny part := by
  cases part with
  | none => rfl
  | some outline => exact outline.length_blocks a

end Outline

end Flowchart.Draft
