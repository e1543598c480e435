import Flowchart.Proofs.Kinds.Marks

/-!
# `Flowchart.Proofs.Syntax.Without`: trees without some of their nodes

Nodes below the root are dropped with all that is below them. What is left
says what it said. A search among what is left finds what it finds among all,
if it goes past what is dropped.

* `Tree.without`: a tree without some of its nodes;
* `Tree.exists_of_mem_subtrees_without`: what is left was there before;
* `takeWhile_filter`, `find?_filter_of_found`: searches among what is left.
-/

set_option autoImplicit false

namespace Flowchart

namespace Tree

variable {α : Type}

mutual

/-- A tree without some nodes below its root, and without what is below
them. -/
def without (drop : Tree α → Bool) : Tree α → Tree α
  | .node label children => .node label (withoutAll drop children)

/-- A row of trees without some of them, and the others without some nodes
below. -/
def withoutAll (drop : Tree α → Bool) : List (Tree α) → List (Tree α)
  | [] => []
  | t :: ts => if drop t then withoutAll drop ts else without drop t :: withoutAll drop ts

end

variable {drop : Tree α → Bool}

/-- What is left of a row, tree by tree. -/
theorem withoutAll_eq (ts : List (Tree α)) :
    withoutAll drop ts = (ts.filter fun t => !drop t).map (without drop) := by
  induction ts with
  | nil => rfl
  | cons t ts ih =>
    rw [withoutAll]
    cases h : drop t <;> simp [h, ih]

/-- What is left of a node has the label, and what is left of the children. -/
theorem without_node (label : α) (ts : List (Tree α)) :
    without drop (.node label ts) =
      .node label ((ts.filter fun t => !drop t).map (without drop)) := by
  rw [without, withoutAll_eq]

/-- The root keeps its label. -/
theorem label_without (t : Tree α) : (t.without drop).label = t.label := by
  cases t
  rw [without, label_node, label_node]

/-- The children that are left are those that are not dropped, each without what
is dropped below it. -/
theorem children_without (t : Tree α) :
    (t.without drop).children = (t.children.filter fun s => !drop s).map (without drop) := by
  cases t
  rw [without_node, children_node, children_node]

/-- What is left says what it said. -/
theorem exists_of_mem_subtrees_without {s t : Tree α} (h : s ∈ (t.without drop).subtrees) :
    ∃ u ∈ t.subtrees, u.label = s.label := by
  induction t with
  | node label children ih =>
    rw [without_node] at h
    rcases List.mem_cons.1 h with rfl | h
    · exact ⟨_, mem_subtrees_self _, rfl⟩
    · obtain ⟨_, hchild, h⟩ := mem_allSubtrees.1 h
      obtain ⟨child, hkept, rfl⟩ := List.mem_map.1 hchild
      have hmem := (List.mem_filter.1 hkept).1
      obtain ⟨u, hu, hlabel⟩ := ih child hmem h
      exact ⟨u, mem_subtrees_of_mem_children hmem hu, hlabel⟩

end Tree

/-! ### Searches -/

/-- Items that a search would go past can be left out of it. -/
theorem takeWhile_filter {α : Type} {p keep : α → Bool} {items : List α}
    (h : ∀ item, keep item = false → p item = true) :
    (items.filter keep).takeWhile p = (items.takeWhile p).filter keep := by
  induction items with
  | nil => rfl
  | cons item items ih =>
    -- What is dropped would have been taken, so it does not end the row.
    cases hkeep : keep item with
    | false =>
      rw [List.filter_cons_of_neg (by simp [hkeep]), List.takeWhile_cons_of_pos (h item hkeep),
        List.filter_cons_of_neg (by simp [hkeep]), ih]
    | true =>
      rw [List.filter_cons_of_pos hkeep]
      cases hp : p item with
      | false =>
        rw [List.takeWhile_cons_of_neg (by simp [hp]), List.takeWhile_cons_of_neg (by simp [hp])]
        rfl
      | true =>
        rw [List.takeWhile_cons_of_pos hp, List.takeWhile_cons_of_pos hp,
          List.filter_cons_of_pos hkeep, ih]

/-- A search that finds nothing but what is kept finds it among what is
kept. -/
theorem find?_filter_of_found {α : Type} {p keep : α → Bool} {items : List α}
    (h : ∀ item ∈ items.find? p, keep item = true) :
    (items.filter keep).find? p = items.find? p := by
  induction items with
  | nil => rfl
  | cons item items ih =>
    cases hp : p item with
    | true =>
      rw [List.find?_cons_of_pos hp] at h ⊢
      rw [List.filter_cons_of_pos (h item rfl), List.find?_cons_of_pos hp]
    | false =>
      rw [List.find?_cons_of_neg (by simp [hp])] at h ⊢
      rw [List.filter_cons]
      split
      · rw [List.find?_cons_of_neg (by simp [hp]), ih h]
      · exact ih h

end Flowchart
