import Flowchart.Syntax.Tree

/-!
# `Flowchart.Proofs.Syntax.Subtrees`: what lies in a tree

A subtree of a tree is the tree itself or lies in one of its children, so
what lies in a subtree lies in the tree, and nothing lies below itself.

* `mem_subtrees_of_mem_children`, `mem_subtrees_trans`: a subtree of a part is
  a subtree of the whole;
* `size_le_of_mem_subtrees`: no subtree is larger than its tree;
* `mem_backward`: from either end, the same subtrees come up.
-/

set_option autoImplicit false

namespace Flowchart

namespace Tree

variable {α : Type} {s t u : Tree α}

/-- The nodes of a tree are its root and the nodes of its children. -/
theorem subtrees_eq (t : Tree α) : t.subtrees = t :: allSubtrees t.children := by
  cases t
  rfl

/-- The root is a node of its tree. -/
theorem mem_subtrees_self (t : Tree α) : t ∈ t.subtrees := by
  cases t
  exact List.mem_cons_self

/-- A node of a row is one of a tree in the row. -/
theorem mem_allSubtrees {ts : List (Tree α)} : s ∈ allSubtrees ts ↔ ∃ t ∈ ts, s ∈ t.subtrees := by
  rw [allSubtrees_eq_flatMap, List.mem_flatMap]

/-- A node of a child is one of the tree. -/
theorem mem_subtrees_of_mem_children (h : t ∈ u.children) (hs : s ∈ t.subtrees) :
    s ∈ u.subtrees := by
  cases u
  exact List.mem_cons_of_mem _ (mem_allSubtrees.2 ⟨t, h, hs⟩)

/-- A node below a node of a tree is a node of the tree. -/
theorem mem_subtrees_trans (h : t ∈ u.subtrees) (hs : s ∈ t.subtrees) : s ∈ u.subtrees := by
  induction u with
  | node label children ih =>
    rcases List.mem_cons.1 h with rfl | h
    · exact hs
    · obtain ⟨child, hchild, h⟩ := mem_allSubtrees.1 h
      exact mem_subtrees_of_mem_children hchild (ih child hchild h)

/-- No node has more nodes below it than the tree. -/
theorem size_le_of_mem_subtrees (h : s ∈ t.subtrees) : s.size ≤ t.size := by
  induction t with
  | node label children ih =>
    rcases List.mem_cons.1 h with rfl | h
    · exact Nat.le_refl _
    · obtain ⟨child, hchild, h⟩ := mem_allSubtrees.1 h
      have hchild' : child.size < (node label children).size := size_lt_of_mem hchild
      exact Nat.le_trans (ih child hchild h) (Nat.le_of_lt hchild')

/-- A tree is not below itself. -/
theorem not_mem_allSubtrees_children (t : Tree α) : t ∉ allSubtrees t.children := by
  intro h
  obtain ⟨child, hchild, h⟩ := mem_allSubtrees.1 h
  exact absurd (size_lt_of_mem hchild) (Nat.not_lt.2 (size_le_of_mem_subtrees h))

/-- What is in each tree of a row from the back is in the row from the back. -/
theorem mem_allBackward_of {ts : List (Tree α)} (h : ∀ t ∈ ts, s ∈ t.backward ↔ s ∈ t.subtrees) :
    s ∈ allBackward ts ↔ s ∈ allSubtrees ts := by
  induction ts with
  | nil => exact Iff.rfl
  | cons t ts ih =>
    rw [allBackward, allSubtrees, List.mem_append, List.mem_append, h t List.mem_cons_self,
      ih fun u hu => h u (List.mem_cons_of_mem t hu), or_comm]

/-- From the back a tree has the same nodes. -/
theorem mem_backward : s ∈ t.backward ↔ s ∈ t.subtrees := by
  induction t with
  | node label children ih =>
    rw [backward, subtrees, List.mem_cons, List.mem_cons, mem_allBackward_of ih]

/-- Either way round, the same subtrees come up. -/
theorem mem_allBackward {ts : List (Tree α)} : s ∈ allBackward ts ↔ s ∈ allSubtrees ts :=
  mem_allBackward_of fun _ _ => mem_backward

end Tree

end Flowchart
