import Flowchart.Proofs.Kinds.Comments
import Flowchart.Proofs.Outline.Frame
import Flowchart.Proofs.Outline.Served

/-!
# `Flowchart.Proofs.Outline.Comments`: outlines of trees without comments

A comment with nothing below it builds nothing where it is a link of a chain,
and no construct looks into it. So what is made of a node without such
comments has the same frame as what is made of the node: the parts of a
construct are the same, each again without its comments.

* `Undisturbed`: what is made of a node has the same frame without its
  comments;
* `sameFrames_links`, `sameFrames_child`, `sameFrames_arms`: the parts of a
  construct;
* `undisturbed`: comments disturb nothing that is made of a node;
* `blocks_withoutComments`, `edges_withoutComments`: the draft of a tree that
  is a chain without its comments where it is one with them.
-/

set_option autoImplicit false

namespace Flowchart.Draft

open Outline MarkedTree

section

variable {table : KindTable}

/-- A comment builds nothing. -/
theorem nodeShape_of_isBareComment (hquiet : table.Quiet) {t : MarkedTree}
    (h : t.isBareComment table = true) : nodeShape table t = none := by
  have hcategory := category?_of_isBareComment hquiet h
  cases hcontainer : table.isContainer t.label with
  | true =>
    rw [shape_container hcategory hcontainer, namedChildren, children_of_isBareComment h]
    rfl
  | false =>
    have hcomment : table.isComment t.label.kind = true := (Bool.and_eq_true_iff.1 h).1
    rw [shape_leaf hcategory hcontainer, hcomment, Bool.not_true, Bool.and_false]
    rfl

/-- What is made of a node, and what is made of the chain in it, has the same
frame without its comments. -/
structure Undisturbed (table : KindTable) (t : MarkedTree) : Prop where
  node : SameFrames (nodeShape table t) (nodeShape table (t.withoutComments table))
  chain : SameFrames (shape table ⟨.chain, t, []⟩)
    (shape table ⟨.chain, t.withoutComments table, []⟩)

/-- A row of links without its comments. -/
theorem sameFrames_row (hquiet : table.Quiet) {ts : List MarkedTree}
    (h : ∀ t ∈ ts, Undisturbed table t) {linked linked' : Option Outline}
    (hlinked : SameFrames linked linked') :
    SameFrames ((ts.map (nodeShape table)).foldl follow linked)
      ((((ts.filter fun t : MarkedTree => !t.isBareComment table).map
        (withoutComments table)).map (nodeShape table)).foldl follow linked') := by
  induction ts generalizing linked linked' with
  | nil => exact hlinked
  | cons t ts ih =>
    obtain ⟨ht, hts⟩ := List.forall_mem_cons.1 h
    -- A comment that is left out made nothing where it stood.
    cases hbare : t.isBareComment table with
    | true =>
      rw [List.filter_cons_of_neg (by simp [hbare]), List.map_cons,
        nodeShape_of_isBareComment hquiet hbare]
      exact ih hts hlinked
    | false =>
      rw [List.filter_cons_of_pos (by simp [hbare])]
      exact ih hts (hlinked.follow ht.node)

/-- A row of arms without their comments. -/
theorem sameArmFrames_row {arms : List MarkedTree} (h : ∀ arm ∈ arms, Undisturbed table arm)
    (first : Nat) :
    SameArmFrames ((arms.zipIdx first).filterMap (armShape table))
      (((arms.map (withoutComments table)).zipIdx first).filterMap (armShape table)) := by
  -- The arms keep their numbers, so the induction is for every first one.
  induction arms generalizing first with
  | nil => exact .nil
  | cons arm arms ih =>
    obtain ⟨harm, harms⟩ := List.forall_mem_cons.1 h
    have hrest := ih harms (first + 1)
    have hchain := harm.chain
    simp only [List.map_cons, List.zipIdx_cons, List.filterMap_cons, armShape] at hrest ⊢
    generalize shape table ⟨.chain, arm, []⟩ = made at hchain ⊢
    generalize shape table ⟨.chain, arm.withoutComments table, []⟩ = made' at hchain ⊢
    cases hchain with
    | none => exact hrest
    | some hmade => exact .cons hmade hrest

section

variable {t : MarkedTree} (h : ∀ s, s.size < t.size → Undisturbed table s)

include h

/-- Comments in a row differ in nothing but texts. -/
theorem sameFrames_links (hquiet : table.Quiet) :
    SameFrames (chained (t.namedChildren.map (nodeShape table)))
      (chained ((t.withoutComments table).namedChildren.map (nodeShape table))) := by
  rw [namedChildren_withoutComments]
  exact sameFrames_row hquiet
    (fun s hs => h s (Tree.size_lt_of_mem (List.mem_filter.1 hs).1)) .none

/-- The child for any role but that of comments is the same but for texts. -/
theorem sameFrames_child (hquiet : table.Quiet) (role : Role) (hrole : role ≠ .comments) :
    SameFrames (childShape table t role) (childShape table (t.withoutComments table) role) := by
  rw [childShape, childShape, child?_withoutComments hquiet hrole]
  cases hchild : t.child? table role with
  | none => exact .none
  | some child => exact (h child (size_lt_of_find hchild)).chain

/-- The arms are the same but for texts. -/
theorem sameFrames_arms (hquiet : table.Quiet) :
    SameArmFrames ((t.arms table).zipIdx.filterMap (armShape table))
      (((t.withoutComments table).arms table).zipIdx.filterMap (armShape table)) := by
  rw [arms_withoutComments hquiet]
  exact sameArmFrames_row (fun arm harm => h arm (size_lt_of_mem_arms harm)) 0

end

/-- What is made of a node has the same frame without its comments, if that is
known of its parts. -/
theorem sameFrames_nodeShape (hquiet : table.Quiet) {t : MarkedTree}
    (h : ∀ s, s.size < t.size → Undisturbed table s) :
    SameFrames (nodeShape table t) (nodeShape table (t.withoutComments table)) := by
  have hlabel : (t.withoutComments table).label = t.label := label_withoutComments t
  have hbody := sameFrames_child h hquiet .bodies (by decide)
  -- A node keeps its label without its comments, so both are of one category, and only the parts
  -- differ.
  cases hcategory : table.category? t.label.kind with
  | some category =>
    have hcategory' : table.category? (t.withoutComments table).label.kind = some category :=
      hlabel.symm ▸ hcategory
    have horigin : ∀ caption caption', (nodeOrigin t caption).node =
        (nodeOrigin (t.withoutComments table) caption').node := fun _ _ => by
      rw [nodeOrigin, nodeOrigin, hlabel]
    cases category with
    | branch =>
      have halternative := sameFrames_child h hquiet .alternatives (by decide)
      rw [shape_branch hcategory, shape_branch hcategory',
        child?_withoutComments hquiet (by decide), Option.isSome_map]
      exact .some (.branch (horigin _ _) _ hbody halternative)
    | loop =>
      rw [shape_loop hcategory, shape_loop hcategory']
      exact .some (.loop (horigin _ _) hbody)
    | choice =>
      rw [shape_choice hcategory, shape_choice hcategory']
      exact .some (.choice (horigin _ _) (sameFrames_arms h hquiet))
    | terminator =>
      rw [shape_terminator hcategory, shape_terminator hcategory']
      exact .some (.terminator (horigin _ _))
    | function =>
      rw [shape_function hcategory, shape_function hcategory']
      exact .some (.function (horigin _ _) hbody)
  | none =>
    have hcategory' : table.category? (t.withoutComments table).label.kind = none :=
      hlabel.symm ▸ hcategory
    cases hcontainer : table.isContainer t.label with
    | true =>
      rw [shape_container hcategory hcontainer,
        shape_container hcategory' (hlabel.symm ▸ hcontainer)]
      exact sameFrames_links h hquiet
    | false =>
      rw [shape_leaf hcategory hcontainer, shape_leaf hcategory' (hlabel.symm ▸ hcontainer), hlabel]
      split
      · exact .some (.statement (congrArg MarkedInfo.toNodeInfo hlabel.symm))
      · exact .none

/-- Comments disturb nothing that is made of a node. -/
theorem undisturbed (hquiet : table.Quiet) (t : MarkedTree) : Undisturbed table t := by
  have hsmaller : ∀ s, s.size < t.size → Undisturbed table s := fun s _ => undisturbed hquiet s
  refine ⟨sameFrames_nodeShape hquiet hsmaller, ?_⟩
  rw [shape_chain, shape_chain]
  exact sameFrames_links hsmaller hquiet
termination_by t.size

/-! ### Drafts -/

section

variable {t : MarkedTree}
  (hroot : table.isStructural t.kind = true ∨ (t.withoutComments table).namedChildren ≠ [])

include hroot

/-- A tree is a chain without its comments where it is one with them. -/
theorem mode_withoutComments :
    (rootRequest table t).mode = (rootRequest table (t.withoutComments table)).mode := by
  simp only [rootRequest, label_withoutComments]
  rcases hroot with hconstruct | hleft
  · rw [MarkedTree.kind] at hconstruct
    rw [hconstruct, Bool.true_or, Bool.true_or]
  · have hnamed : t.namedChildren ≠ [] := by
      intro hnone
      rw [namedChildren_withoutComments, hnone] at hleft
      exact hleft rfl
    rw [List.isEmpty_eq_false_iff.2 hleft, List.isEmpty_eq_false_iff.2 hnamed]

variable (hquiet : table.Quiet)

include hquiet

/-- The root has the same shape but for texts. -/
theorem sameFrames_root :
    SameFrames (shape table (rootRequest table t))
      (shape table (rootRequest table (t.withoutComments table))) := by
  have hroots : ∀ s, rootRequest table s = ⟨(rootRequest table s).mode, s, []⟩ := fun _ => rfl
  rw [hroots t, hroots (t.withoutComments table), ← mode_withoutComments hroot]
  cases (rootRequest table t).mode with
  | visit => exact (undisturbed hquiet t).node
  | chain => exact (undisturbed hquiet t).chain

/-- The blocks that are drafted differ in texts only. -/
theorem blocks_withoutComments :
    (draft table t).draft.blocks.map Block.withoutTexts =
      (draft table (t.withoutComments table)).draft.blocks.map Block.withoutTexts := by
  have hblocks := (sameFrames_root hroot hquiet).blocks 0
  have htexts : Block.withoutTexts ∘ Block.withoutPath = Block.withoutTexts := rfl
  rwa [blocksIfAny_shape, blocksIfAny_shape, List.map_map, List.map_map, htexts, ← blocks_draft,
    ← blocks_draft] at hblocks

/-- The edges that are drafted differ in what they stand for only. -/
theorem edges_withoutComments :
    (draft table t).draft.edges.map Edge.withoutFlow =
      (draft table (t.withoutComments table)).draft.edges.map Edge.withoutFlow := by
  have hedges := (sameFrames_root hroot hquiet).edges 0
  rwa [edgesIfAny_shape, edgesIfAny_shape, ← edges_draft, ← edges_draft] at hedges

/-- A tree without its comments has as many blocks. -/
theorem next_withoutComments :
    (draft table t).draft.next = (draft table (t.withoutComments table)).draft.next := by
  have hsize := (sameFrames_root hroot hquiet).size
  rwa [sizeIfAny_shape, sizeIfAny_shape, ← next_draft, ← next_draft] at hsize

/-- The blocks of a tree without its comments are of the same kinds. -/
theorem kinds_withoutComments :
    (draft table t).draft.blocks.map Block.kind =
      (draft table (t.withoutComments table)).draft.blocks.map Block.kind := by
  have hkinds := congrArg (List.map Block.kind) (blocks_withoutComments hroot hquiet)
  rwa [List.map_map, List.map_map] at hkinds

end

end

end Flowchart.Draft
