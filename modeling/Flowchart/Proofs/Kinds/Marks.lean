import Flowchart.Draft.Serve
import Flowchart.Proofs.Syntax.Subtrees

/-!
# `Flowchart.Proofs.Kinds.Marks`: marked trees and their subtrees

Marking a tree changes none of its shape: the subtrees of a marked tree are
the subtrees of the tree, marked. Whatever is drafted of a node is drafted of
a subtree of it.

* `subtrees_mark`: the subtrees of a marked tree;
* `mem_subtrees_of_mem_parts`: the parts of a request are about subtrees of
  its tree.
-/

set_option autoImplicit false

namespace Flowchart

open Flowchart.Tree

namespace KindTable

variable (table : KindTable)

/-- A row is marked tree by tree. -/
theorem markAll_eq_map (ts : List SyntaxTree) : table.markAll ts = ts.map table.mark := by
  induction ts with
  | nil => rfl
  | cons t ts ih => rw [markAll, ih, List.map_cons]

/-- The children of a marked node are the marked children. -/
theorem children_mark (t : SyntaxTree) : (table.mark t).children = t.children.map table.mark := by
  cases t
  exact table.markAll_eq_map _

/-- What a node says once it is marked. -/
theorem kind_mark (t : SyntaxTree) : (table.mark t).label.kind = t.label.kind :=
  congrArg NodeInfo.kind (table.mark_label t)

/-- A mark does not change whether a node is named. -/
theorem isNamed_mark (t : SyntaxTree) : (table.mark t).isNamed = t.isNamed :=
  congrArg NodeInfo.isNamed (table.mark_label t)

/-- The mark of a node says whether any of its children shows structure. -/
theorem structural_mark (t : SyntaxTree) :
    (table.mark t).label.structural = (table.mark t).children.any table.showsStructure := by
  cases t
  rfl

/-- The named children of a marked node are the marked named children. -/
theorem namedChildren_mark (t : SyntaxTree) :
    (table.mark t).namedChildren = t.namedChildren.map table.mark := by
  rw [MarkedTree.namedChildren, children_mark, List.filter_map, SyntaxTree.namedChildren]
  congr 2
  funext s
  simp only [Function.comp_apply, MarkedTree.isNamed, SyntaxTree.isNamed, mark_label]

/-- The subtrees of a marked tree are the subtrees of the tree, marked. -/
theorem subtrees_mark (t : SyntaxTree) :
    (table.mark t).subtrees = t.subtrees.map table.mark := by
  induction t using Tree.induction with
  | node info children ih =>
    have hall : allSubtrees (children.map table.mark) =
        (allSubtrees children).map table.mark := by
      rw [allSubtrees_eq_flatMap, allSubtrees_eq_flatMap, List.map_flatMap, List.flatMap_map]
      rw [List.flatMap_def, List.flatMap_def, List.map_congr_left ih]
    simp only [mark, subtrees, List.map_cons, markAll_eq_map, hall]

end KindTable

namespace MarkedTree

variable {table : KindTable} {s t : MarkedTree}

/-- What is found for a role is a child. -/
theorem mem_children_of_child {role : Role} (h : t.child? table role = some s) :
    s ∈ t.children :=
  (List.takeWhile_prefix _).subset (List.mem_of_find?_eq_some h)

section

variable (table : KindTable)

/-- A search looks at the first tree, and goes on inside it if it is a wrapper.
-/
theorem lookedAt_cons (t : MarkedTree) (stack : List MarkedTree) :
    lookedAt table (t :: stack) = t :: lookedAt table
      ((if table.has .armContainers t.label.kind then t.children else []) ++ stack) := by
  rw [lookedAt]

/-- Where there is nothing, nothing is looked at. -/
theorem lookedAt_nil : lookedAt table [] = [] := by
  rw [lookedAt]

/-- A search looks at two rows one after the other. -/
theorem lookedAt_append (ts us : List MarkedTree) :
    lookedAt table (ts ++ us) = lookedAt table ts ++ lookedAt table us := by
  fun_induction lookedAt table ts with
  | case1 => rfl
  | case2 t stack inside ih =>
    rw [List.cons_append, lookedAt_cons, ← List.append_assoc]
    exact congrArg (t :: ·) ih

end

/-- What is looked at is in one of the trees. -/
theorem mem_subtrees_of_mem_lookedAt {stack : List MarkedTree} (h : s ∈ lookedAt table stack) :
    s ∈ allSubtrees stack := by
  fun_induction lookedAt table stack with
  | case1 => exact h
  | case2 t stack inside ih =>
    rcases List.mem_cons.1 h with rfl | h
    · exact mem_allSubtrees.2 ⟨s, List.mem_cons_self, mem_subtrees_self s⟩
    · obtain ⟨u, hu, hs⟩ := mem_allSubtrees.1 (ih h)
      rcases List.mem_append.1 hu with hu | hu
      -- What is inside a wrapper are its children.
      · have hchild : u ∈ t.children := by
          simp only [inside] at hu
          split at hu
          · exact hu
          · cases hu
        exact mem_allSubtrees.2
          ⟨t, List.mem_cons_self, mem_subtrees_of_mem_children hchild hs⟩
      · exact mem_allSubtrees.2 ⟨u, List.mem_cons_of_mem t hu, hs⟩

/-- The arms of a node are inside it. -/
theorem mem_subtrees_of_mem_arms (h : s ∈ t.arms table) : s ∈ t.subtrees := by
  have hs := mem_subtrees_of_mem_lookedAt (List.mem_filter.1 h).1
  obtain ⟨child, hchild, hs⟩ := mem_allSubtrees.1 hs
  exact mem_subtrees_of_mem_children hchild hs

end MarkedTree

namespace Draft.Request

variable {table : KindTable} {r : Request}

/-- What is served inside a child is inside the node. -/
theorem mem_subtrees_of_mem_inside {role : Role} {part : Part} {p : Part × Request}
    (h : p ∈ inside? part r.path (r.tree.child? table role)) : p.2.tree ∈ r.tree.subtrees := by
  cases hc : r.tree.child? table role with
  | none => simp [hc, inside?] at h
  | some child =>
    simp only [hc, inside?, List.mem_singleton] at h
    subst h
    exact mem_subtrees_of_mem_children (MarkedTree.mem_children_of_child hc)
      (mem_subtrees_self child)

/-- What is linked in a row is inside the node. -/
theorem mem_subtrees_of_mem_links {p : Part × Request} (h : p ∈ links r.tree r.path) :
    p.2.tree ∈ r.tree.subtrees := by
  obtain ⟨⟨child, index⟩, hmem, hp⟩ := List.mem_filterMap.1 h
  simp only [Option.ite_none_right_eq_some, Option.some.injEq] at hp
  obtain ⟨_, rfl⟩ := hp
  exact mem_subtrees_of_mem_children (List.fst_mem_of_mem_zipIdx hmem) (mem_subtrees_self child)

/-- What is read of the links of a chain, where it does not depend on their
paths. -/
theorem map_links {β : Type} {t : MarkedTree} {path : Path} {read : Part × Request → β}
    {ofChild : MarkedTree → β}
    (h : ∀ child index, read (.link, ⟨.visit, child, path ++ [.child index]⟩) = ofChild child) :
    (links t path).map read = t.namedChildren.map ofChild := by
  -- For every number to start from, since the children are numbered as they come.
  have hall : ∀ (ts : List MarkedTree) (n : Nat),
      ((ts.zipIdx n).filterMap fun p =>
        if p.1.label.isNamed then
          some (Part.link, (⟨.visit, p.1, path ++ [.child p.2]⟩ : Request))
        else none).map read = (ts.filter MarkedTree.isNamed).map ofChild := by
    intro ts
    induction ts with
    | nil => exact fun _ => rfl
    | cons t ts ih =>
      intro n
      have hrest := ih (n + 1)
      cases hnamed : t.label.isNamed <;> simp [MarkedTree.isNamed, hnamed, hrest, h]
  exact hall t.children 0

/-- The links of a row are the named children. -/
theorem tree_links (t : MarkedTree) (path : Path) :
    (links t path).map (fun p => p.2.tree) = t.namedChildren := by
  rw [map_links fun _ _ => rfl, List.map_id']

/-- The parts of a choice are its arms. -/
theorem tree_armParts (t : MarkedTree) (path : Path) :
    (Request.armParts table t path).map (fun p => p.2.tree) = t.arms table := by
  rw [Request.armParts, List.map_map]
  exact List.zipIdx_map_fst 0 _

/-- The parts of a request are about subtrees of its tree. -/
theorem mem_subtrees_of_mem_parts {p : Part × Request} (h : p ∈ r.parts table) :
    p.2.tree ∈ r.tree.subtrees := by
  unfold parts at h
  split at h
  · exact mem_subtrees_of_mem_links h
  · split at h
    · rcases List.mem_append.1 h with h | h <;> exact mem_subtrees_of_mem_inside h
    · exact mem_subtrees_of_mem_inside h
    -- An arm need not be a child: it can lie inside containers.
    · obtain ⟨⟨arm, index⟩, hmem, rfl⟩ := List.mem_map.1 h
      exact MarkedTree.mem_subtrees_of_mem_arms (List.fst_mem_of_mem_zipIdx hmem)
    · cases h
    · exact mem_subtrees_of_mem_inside h
    · split at h
      · exact mem_subtrees_of_mem_links h
      · cases h

end Draft.Request

end Flowchart
