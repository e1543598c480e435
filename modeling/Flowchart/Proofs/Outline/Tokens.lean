import Mathlib.Data.List.Forall2
import Flowchart.Proofs.Kinds.Tokens
import Flowchart.Proofs.Outline.Served
import Flowchart.Proofs.Outline.Shape

/-!
# `Flowchart.Proofs.Outline.Tokens`: outlines of trees without tokens

Where no token is taken for a part of a construct, a request for a node has
the same shape with the tokens of the node and without them: the same is made
of the node itself, and its parts are requests for the same nodes inside, one
by one. So the draft of a tree has the same edges, and blocks that differ in
their paths only.

* `Alike`: two parts that ask for one node, with its tokens and without them;
* `assemble_markNamed`, `alike_parts`: what is made of a node, and its parts;
* `shape_markNamed`: the shape of a request;
* `blocks_markNamed`, `edges_markNamed`: the draft of a tree.
-/

set_option autoImplicit false

namespace Flowchart.Draft

open Outline MarkedTree

section

variable {table : KindTable} {t : SyntaxTree}

/-! ### What a node is -/

/-- A block shows the same of a node with its tokens and without them. -/
theorem infoOf_mark (found? : Option SyntaxTree) :
    infoOf (found?.map table.markNamed) = infoOf (found?.map table.mark) := by
  cases found? with
  | none => rfl
  | some s => exact congrArg some (table.info_markNamed s)

/-- What a block shows of the first of two nodes that is there. -/
theorem infoOf_or (found? other? : Option MarkedTree) :
    infoOf (found?.or other?) = (infoOf found?).or (infoOf other?) :=
  Option.map_or

/-- The child in a role says the same. -/
theorem infoOf_child? (hnamed : t.KindsNamed) {role : Role}
    (h : ∀ s ∈ (table.mark t).child? table role, s.isNamed = true) :
    infoOf ((table.markNamed t).child? table role) =
      infoOf ((table.mark t).child? table role) := by
  obtain ⟨found?, _, hmark, hmarkNamed⟩ := exists_child? hnamed h
  rw [hmark, hmarkNamed, infoOf_mark]

/-- A block shows the same condition with the tokens and without them. -/
theorem infoOf_condition? (hnamed : t.KindsNamed)
    (h : ∀ s ∈ (table.mark t).condition? table, s.isNamed = true) :
    infoOf ((table.markNamed t).condition? table) =
      infoOf ((table.mark t).condition? table) := by
  have hchild : ∀ s ∈ (table.mark t).child? table .conditions, s.isNamed = true := fun s hs =>
    h s (by rw [condition?, Option.mem_def.1 hs]; rfl)
  rw [condition?, condition?, infoOf_or, infoOf_or, infoOf_child? hnamed hchild,
    KindTable.namedChildren_markNamed, KindTable.namedChildren_mark, List.getElem?_map,
    List.getElem?_map, infoOf_mark]

/-- A block shows the same name with the tokens and without them. -/
theorem infoOf_name? (hnamed : t.KindsNamed)
    (h : ∀ s ∈ (table.mark t).name? table, s.isNamed = true) :
    infoOf ((table.markNamed t).name? table) = infoOf ((table.mark t).name? table) := by
  rw [name?] at h
  rw [name?, name?, infoOf_or, infoOf_or]
  -- The other names count only where there is none of the first, so only those must be named.
  have hnames : (∀ s ∈ (table.mark t).child? table .names, s.isNamed = true) →
      infoOf ((table.markNamed t).child? table .names) =
        infoOf ((table.mark t).child? table .names) := infoOf_child? hnamed
  cases hname : (table.mark t).child? table .names with
  | some s =>
    rw [hname] at h hnames
    rw [hnames h]
    rfl
  | none =>
    rw [hname] at h hnames
    rw [hnames (by simp), infoOf_child? hnamed h]

/-- There is a child for a role with the tokens if there is one without them. -/
theorem isSome_child? (hnamed : t.KindsNamed) {role : Role}
    (h : ∀ s ∈ (table.mark t).child? table role, s.isNamed = true) :
    ((table.markNamed t).child? table role).isSome =
      ((table.mark t).child? table role).isSome := by
  obtain ⟨found?, _, hmark, hmarkNamed⟩ := exists_child? hnamed h
  rw [hmark, hmarkNamed, Option.isSome_map, Option.isSome_map]

/-- The same is made of the parts of a clear node. -/
theorem assemble_markNamed (hnamed : t.KindsNamed) (hclear : t.Clear table) (mode : Mode)
    (parts : List (Part × Option Outline)) :
    (⟨mode, table.markNamed t, []⟩ : Request).assemble table parts =
      (⟨mode, table.mark t, []⟩ : Request).assemble table parts := by
  cases mode with
  -- A chain is made of its links alone; a construct also reads what it finds in the node.
  | chain => rfl
  | visit =>
    simp only [Request.assemble, Request.origin, KindTable.info_markNamed, table.kind_mark t]
    cases hcategory : table.category? t.label.kind with
    | none => simp only [isContainer_markNamed hclear hcategory]
    | some category =>
      have hcategory' : table.category? (table.mark t).label.kind = some category := by
        rwa [table.kind_mark]
      cases category with
      | branch =>
        obtain ⟨hcondition, _, halternative⟩ := hclear.self.of_branch hcategory'
        have hsame := infoOf_condition? hnamed hcondition
        unfold infoOf at hsame
        simp only [hsame, isSome_child? hnamed halternative]
      | loop =>
        have hsame := infoOf_condition? hnamed (hclear.self.of_loop hcategory').1
        unfold infoOf at hsame
        simp only [hsame]
      | choice => rfl
      | terminator => rfl
      | function =>
        have hsame := infoOf_name? hnamed (hclear.self.of_function hcategory').1
        unfold infoOf at hsame
        simp only [hsame]

/-! ### What its parts are -/

/-- Two parts ask for one node in the same way, one with the tokens of the
node and one without them. -/
structure Alike (table : KindTable) (s : SyntaxTree) (p q : Part × Request) : Prop where
  part : q.1 = p.1
  mode : q.2.mode = p.2.mode
  tree : p.2.tree = table.mark s
  tree' : q.2.tree = table.markNamed s

/-- Two parts ask for one of the nodes that are not below a token. -/
def AlikeIn (table : KindTable) (t : SyntaxTree) (p q : Part × Request) : Prop :=
  ∃ s ∈ t.namedSubtrees, Alike table s p q

/-- What a child and its number are to the chain of a node at a path. -/
def link? (path : Path) (child : MarkedTree × Nat) : Option (Part × Request) :=
  if child.1.label.isNamed then
    some (.link, ⟨.visit, child.1, path ++ [.child child.2]⟩)
  else none

/-- The links of a row, child by child. -/
theorem links_eq (m : MarkedTree) (path : Path) :
    Request.links m path = m.children.zipIdx.filterMap (link? path) :=
  rfl

/-- A named child is a link. -/
theorem link?_named {m : MarkedTree} (h : m.isNamed = true) (path : Path) (index : Nat) :
    link? path (m, index) = some (.link, ⟨.visit, m, path ++ [.child index]⟩) :=
  if_pos h

/-- A token is no link. -/
theorem link?_token {m : MarkedTree} (h : m.isNamed = false) (path : Path) (index : Nat) :
    link? path (m, index) = none :=
  if_neg (by simpa [MarkedTree.isNamed] using h)

/-- The rows of a node ask for the same nodes with the tokens and without them.
-/
theorem alike_links (path path' : Path) :
    List.Forall₂ (AlikeIn table t) (Request.links (table.mark t) path)
      (Request.links (table.markNamed t) path') := by
  -- Tokens take up numbers, so the two rows may start at any numbers.
  suffices h : ∀ (ts : List SyntaxTree) (m n : Nat), (∀ s ∈ ts, s ∈ t.children) →
      List.Forall₂ (AlikeIn table t)
        (((ts.map table.mark).zipIdx m).filterMap (link? path))
        ((((ts.filter SyntaxTree.isNamed).map table.markNamed).zipIdx n).filterMap
          (link? path')) by
    rw [links_eq, links_eq, KindTable.children_mark, KindTable.children_markNamed]
    exact h t.children 0 0 fun s hs => hs
  intro ts
  induction ts with
  | nil => exact fun _ _ _ => .nil
  | cons s ts ih =>
    intro m n hts
    have hs := hts s List.mem_cons_self
    have hrest := fun n => ih (m + 1) n fun u hu => hts u (List.mem_cons_of_mem s hu)
    have hmark : (table.mark s).isNamed = s.isNamed := table.isNamed_mark s
    rw [List.map_cons, List.zipIdx_cons]
    cases hnamed : s.isNamed with
    | false =>
      rw [List.filterMap_cons_none (link?_token (hmark.trans hnamed) _ _),
        List.filter_cons_of_neg (by simp [hnamed])]
      exact hrest n
    | true =>
      have hmarkNamed : (table.markNamed s).isNamed = true := by
        rw [MarkedTree.isNamed, KindTable.info_markNamed]
        exact hmark.trans hnamed
      rw [List.filter_cons_of_pos hnamed, List.map_cons, List.zipIdx_cons,
        List.filterMap_cons_some (link?_named (hmark.trans hnamed) _ _),
        List.filterMap_cons_some (link?_named hmarkNamed _ _)]
      exact .cons ⟨s, SyntaxTree.mem_namedSubtrees_of_mem_namedChildren
        (SyntaxTree.mem_namedChildren.2 ⟨hs, hnamed⟩) (SyntaxTree.mem_namedSubtrees_self s),
        rfl, rfl, rfl, rfl⟩ (hrest (n + 1))

/-- The parts inside a child ask for the same nodes with the tokens and without
them. -/
theorem alike_inside (hnamed : t.KindsNamed) {role : Role}
    (h : ∀ s ∈ (table.mark t).child? table role, s.isNamed = true) (part : Part)
    (path path' : Path) :
    List.Forall₂ (AlikeIn table t)
      (Request.inside? part path ((table.mark t).child? table role))
      (Request.inside? part path' ((table.markNamed t).child? table role)) := by
  obtain ⟨found?, hfound, hmark, hmarkNamed⟩ := exists_child? hnamed h
  rw [hmark, hmarkNamed]
  cases found? with
  | none => exact .nil
  | some s =>
    exact .cons ⟨s, SyntaxTree.mem_namedSubtrees_of_mem_namedChildren (hfound s rfl)
      (SyntaxTree.mem_namedSubtrees_self s), rfl, rfl, rfl, rfl⟩ .nil

/-- The arms of a clear choice ask for the same nodes with the tokens and
without them. -/
theorem alike_armParts (hclear : t.Clear table)
    (hcategory : table.category? t.label.kind = some .choice) (path path' : Path) :
    List.Forall₂ (AlikeIn table t) (Request.armParts table (table.mark t) path)
      (Request.armParts table (table.markNamed t) path') := by
  obtain ⟨arms, hmem, hmark, hmarkNamed⟩ := exists_arms hclear.self hcategory
  rw [Request.armParts, Request.armParts, hmark, hmarkNamed, List.zipIdx_map, List.zipIdx_map,
    List.map_map, List.map_map, List.forall₂_map_left_iff, List.forall₂_map_right_iff,
    List.forall₂_same]
  rintro ⟨arm, index⟩ harm
  refine ⟨arm, hmem arm (List.fst_mem_of_mem_zipIdx harm), ?_, rfl, rfl, rfl⟩
  -- An arm is named by its named children.
  simp only [Function.comp_apply, Prod.map, id, KindTable.namedChildren_markNamed,
    KindTable.namedChildren_mark, List.map_map]
  congr 1
  exact List.map_congr_left fun name _ => table.info_markNamed name

/-- The parts of a clear node are the same, one by one. -/
theorem alike_parts (hnamed : t.KindsNamed) (hclear : t.Clear table) (mode : Mode)
    (path path' : Path) :
    List.Forall₂ (AlikeIn table t)
      ((⟨mode, table.mark t, path⟩ : Request).parts table)
      ((⟨mode, table.markNamed t, path'⟩ : Request).parts table) := by
  cases mode with
  | chain => exact alike_links path path'
  | visit =>
    simp only [Request.parts, KindTable.info_markNamed, table.kind_mark t]
    cases hcategory : table.category? t.label.kind with
    | none =>
      simp only [isContainer_markNamed hclear hcategory]
      split
      · exact alike_links path path'
      · exact .nil
    | some category =>
      have hcategory' : table.category? (table.mark t).label.kind = some category := by
        rwa [table.kind_mark]
      -- A clear node looks up the same child for each role, with tokens and without them.
      cases category with
      | branch =>
        obtain ⟨_, hbody, halternative⟩ := hclear.self.of_branch hcategory'
        exact List.rel_append (alike_inside hnamed hbody .body path path')
          (alike_inside hnamed halternative .alternative path path')
      | loop =>
        exact alike_inside hnamed (hclear.self.of_loop hcategory').2 .body path path'
      | choice => exact alike_armParts hclear hcategory path path'
      | terminator => exact .nil
      | function =>
        exact alike_inside hnamed (hclear.self.of_function hcategory').2 .body path path'

/-! ### What is drafted -/

/-- Where no token is taken for a part, a request has the same shape with the
tokens of its node and without them. -/
theorem shape_markNamed {t : SyntaxTree} (hnamed : t.KindsNamed) (hclear : t.Clear table)
    (mode : Mode) (path path' : Path) :
    shape table ⟨mode, table.markNamed t, path'⟩ = shape table ⟨mode, table.mark t, path⟩ := by
  have hparts : ((⟨mode, table.mark t, path⟩ : Request).parts table).map
        (fun p => (p.1, shape table p.2)) =
      ((⟨mode, table.markNamed t, path'⟩ : Request).parts table).map
        (fun p => (p.1, shape table p.2)) := by
    -- The recursion goes into the parts, which are smaller with their tokens still there.
    have hsmaller : ∀ p ∈ (⟨mode, table.mark t, path⟩ : Request).parts table,
        p.2.tree.size < (table.mark t).size := fun p hp => Request.parts_size_lt hp
    rw [← List.forall₂_eq_eq_eq, List.forall₂_map_left_iff, List.forall₂_map_right_iff]
    refine ((List.forall₂_and_left _ _).2
      ⟨hsmaller, alike_parts hnamed hclear mode path path'⟩).imp ?_
    rintro ⟨_, _, _, place⟩ ⟨part, inner, _, place'⟩ ⟨hless, s, hs, rfl, rfl, rfl, rfl⟩
    have hsame := shape_markNamed (hnamed.of_mem_namedSubtrees hs) (hclear.of_mem hs) inner place
      place'
    rw [hsame]
  rw [shape_eq, shape_eq, ← hparts]
  exact assemble_markNamed hnamed hclear mode _
termination_by (table.mark t).size

/-- A tree is a chain with its tokens where it is one without them. -/
theorem rootRequest_markNamed (table : KindTable) (t : SyntaxTree) :
    rootRequest table (table.markNamed t) =
      ⟨(rootRequest table (table.mark t)).mode, table.markNamed t, []⟩ := by
  simp [rootRequest, KindTable.kind_markNamed, KindTable.namedChildren_markNamed,
    KindTable.namedChildren_mark]

/-- The root of a clear tree has the same shape with the tokens and without
them. -/
theorem shape_root (hnamed : t.KindsNamed) (hclear : t.Clear table) :
    shape table (rootRequest table (table.markNamed t)) =
      shape table (rootRequest table (table.mark t)) := by
  rw [rootRequest_markNamed]
  exact shape_markNamed hnamed hclear _ [] []

/-- The blocks that are drafted differ in their paths only. -/
theorem blocks_markNamed (hnamed : t.KindsNamed) (hclear : t.Clear table) :
    (draft table (table.markNamed t)).draft.blocks.map Block.withoutPath =
      (draft table (table.mark t)).draft.blocks.map Block.withoutPath := by
  rw [blocks_draft, blocks_draft, ← blocksIfAny_shape, ← blocksIfAny_shape,
    shape_root hnamed hclear]

/-- The edges that are drafted are the same. -/
theorem edges_markNamed (hnamed : t.KindsNamed) (hclear : t.Clear table) :
    (draft table (table.markNamed t)).draft.edges = (draft table (table.mark t)).draft.edges := by
  rw [edges_draft, ← edgesIfAny_shape, shape_root hnamed hclear, edgesIfAny_shape, edges_draft]

/-- A clear tree has as many blocks with the tokens as without them. -/
theorem next_markNamed (hnamed : t.KindsNamed) (hclear : t.Clear table) :
    (draft table (table.markNamed t)).draft.next = (draft table (table.mark t)).draft.next := by
  rw [next_draft, ← sizeIfAny_shape, shape_root hnamed hclear, sizeIfAny_shape, next_draft]

/-- The blocks of a clear tree are of the same kinds with the tokens and without
them. -/
theorem kinds_markNamed (hnamed : t.KindsNamed) (hclear : t.Clear table) :
    (draft table (table.markNamed t)).draft.blocks.map Block.kind =
      (draft table (table.mark t)).draft.blocks.map Block.kind := by
  have hkinds := congrArg (List.map Block.kind) (blocks_markNamed hnamed hclear)
  rwa [List.map_map, List.map_map] at hkinds

end

end Flowchart.Draft
