import Mathlib.Data.List.Nodup
import Flowchart.Proofs.Kinds.Marks

/-!
# `Flowchart.Proofs.Syntax.Tagged`: trees whose nodes are told apart

Two nodes of a tree can say the same and have the same below them. Where it
matters which of them is meant, the nodes carry tags. A tagged tree is a tree
in which every label comes with a tag, and the plain tree is what is left
without the tags.

A tag can be anything. The place of a node is one: the numbers of the
children on the way to it from the root. No two nodes have the same place.

* `label_plain`, `children_plain`, `subtrees_plain`: the tree without its
  tags;
* `at?`: the node at a place;
* `placed`: a tree with the place of each node for a tag;
* `plain_placed`, `nodup_tags_placed`: it is the tree, and its tags are
  distinct.
-/

set_option autoImplicit false

namespace Flowchart.Tree

section

variable {α β : Type}

/-- A tree that is mapped has the label mapped. -/
theorem label_map (f : α → β) (t : Tree α) : (t.map f).label = f t.label := by
  cases t
  rfl

/-- A tree that is mapped has the children mapped. -/
theorem children_map (f : α → β) (t : Tree α) : (t.map f).children = t.children.map (map f) := by
  cases t
  exact mapAll_eq_map f _

mutual

/-- A tree that is mapped has its nodes mapped. -/
theorem subtrees_map (f : α → β) (t : Tree α) : (t.map f).subtrees = t.subtrees.map (map f) := by
  match t with
  | .node label children =>
    rw [map, subtrees, subtrees, List.map_cons, map, allSubtrees_mapAll]

/-- The same of a row of trees. -/
theorem allSubtrees_mapAll (f : α → β) (ts : List (Tree α)) :
    allSubtrees (mapAll f ts) = (allSubtrees ts).map (map f) := by
  match ts with
  | [] => rfl
  | t :: ts =>
    rw [mapAll, allSubtrees, allSubtrees, List.map_append, subtrees_map, allSubtrees_mapAll]

end

end

variable {ι α : Type}

/-- The tag of the root. -/
def tag (t : Tree (ι × α)) : ι :=
  t.label.1

/-- The tree without its tags. -/
def plain (t : Tree (ι × α)) : Tree α :=
  t.map Prod.snd

/-- The tags of all nodes, in pre-order. -/
def tags (t : Tree (ι × α)) : List ι :=
  t.subtrees.map tag

/-- A tree without its tags has the label. -/
theorem label_plain (t : Tree (ι × α)) : t.plain.label = t.label.2 :=
  label_map Prod.snd t

/-- A tree without its tags has the children without theirs. -/
theorem children_plain (t : Tree (ι × α)) : t.plain.children = t.children.map plain :=
  children_map Prod.snd t

/-- A tree without its tags has its nodes without theirs. -/
theorem subtrees_plain (t : Tree (ι × α)) : t.plain.subtrees = t.subtrees.map plain :=
  subtrees_map Prod.snd t

/-! ### Places -/

/-- The way to a node: the number of the child at each step from the root. -/
abbrev Place := List Nat

mutual

/-- A tree at a place, with the place of each node for its tag. -/
def placedAt (place : Place) : Tree α → Tree (Place × α)
  | .node label children => .node (place, label) (placedFrom place 0 children)

/-- The children at a place, the first of which has the given number. -/
def placedFrom (place : Place) (index : Nat) : List (Tree α) → List (Tree (Place × α))
  | [] => []
  | t :: ts => placedAt (place ++ [index]) t :: placedFrom place (index + 1) ts

end

/-- A tree with the place of each node for its tag. -/
def placed (t : Tree α) : Tree (Place × α) :=
  placedAt [] t

/-- The node at a place, if there is one. -/
def at? : Tree α → Place → Option (Tree α)
  | t, [] => some t
  | t, index :: place => t.children[index]?.bind fun child => child.at? place

/-- What is at a place below a child is at the place behind the number of the
child. -/
theorem at?_cons {t child : Tree α} {index : Nat} (h : t.children[index]? = some child)
    (place : Place) : t.at? (index :: place) = child.at? place := by
  rw [at?, h, Option.bind_some]

/-- The trees of a row are placed by their numbers. -/
theorem placedFrom_eq (place : Place) (index : Nat) (ts : List (Tree α)) :
    placedFrom place index ts = (ts.zipIdx index).map fun p => placedAt (place ++ [p.2]) p.1 := by
  induction ts generalizing index with
  | nil => rfl
  | cons t ts ih => rw [placedFrom, ih, List.zipIdx_cons, List.map_cons]

/-- The children of a tree at a place are at the places behind it. -/
theorem children_placedAt (place : Place) (t : Tree α) :
    (placedAt place t).children =
      t.children.zipIdx.map fun p => placedAt (place ++ [p.2]) p.1 := by
  cases t
  exact placedFrom_eq place 0 _

/-- A tree that is placed is tagged with its place. -/
theorem tag_placedAt (place : Place) (t : Tree α) : (placedAt place t).tag = place := by
  cases t
  rfl

mutual

/-- A tree that is placed is the same without the tags. -/
theorem plain_placedAt (place : Place) (t : Tree α) : (placedAt place t).plain = t := by
  match t with
  | .node label children =>
    rw [plain, placedAt, map, mapAll_eq_map]
    exact congrArg _ (plain_placedFrom place 0 children)

/-- A row that is placed is the same without the tags. -/
theorem plain_placedFrom (place : Place) (index : Nat) (ts : List (Tree α)) :
    (placedFrom place index ts).map plain = ts := by
  match ts with
  | [] => rfl
  | t :: ts => rw [placedFrom, List.map_cons, plain_placedAt, plain_placedFrom]

end

/-- A tree with places for tags is the tree. -/
theorem plain_placed (t : Tree α) : t.placed.plain = t :=
  plain_placedAt [] t

mutual

/-- The place of a node is behind that of the tree it is in. -/
theorem prefix_of_mem_tags {place q : Place} {t : Tree α} (h : q ∈ (placedAt place t).tags) :
    place <+: q := by
  match t with
  | .node label children =>
    rw [tags, placedAt, subtrees, List.map_cons] at h
    rcases List.mem_cons.1 h with rfl | h
    · exact List.prefix_rfl
    · obtain ⟨n, _, hprefix⟩ := prefix_of_mem_placedFrom h
      exact (List.prefix_append place [n]).trans hprefix

/-- The place of a node is behind that of the child it is in. -/
theorem prefix_of_mem_placedFrom {place q : Place} {index : Nat} {ts : List (Tree α)}
    (h : q ∈ (allSubtrees (placedFrom place index ts)).map tag) :
    ∃ n, index ≤ n ∧ place ++ [n] <+: q := by
  match ts with
  | [] => cases h
  | t :: ts =>
    rw [placedFrom, allSubtrees, List.map_append] at h
    rcases List.mem_append.1 h with h | h
    · exact ⟨index, Nat.le_refl _, prefix_of_mem_tags h⟩
    · obtain ⟨n, hn, hprefix⟩ := prefix_of_mem_placedFrom h
      exact ⟨n, Nat.le_of_succ_le hn, hprefix⟩

end

/-- One child at most has the place of a node behind it. -/
theorem index_unique {place q : Place} {m n : Nat} (hm : place ++ [m] <+: q)
    (hn : place ++ [n] <+: q) : m = n := by
  have hsame : place ++ [m] = place ++ [n] :=
    (List.prefix_of_prefix_length_le hm hn (by simp)).eq_of_length (by simp)
  simpa using hsame

mutual

/-- Each node of a tree that is placed has a tag of its own. -/
theorem nodup_tags_placedAt (place : Place) (t : Tree α) : (placedAt place t).tags.Nodup := by
  match t with
  | .node label children =>
    rw [tags, placedAt, subtrees, List.map_cons, List.nodup_cons]
    refine ⟨fun h => ?_, nodup_tags_placedFrom place 0 children⟩
    -- The place of a child is longer.
    obtain ⟨n, _, hprefix⟩ := prefix_of_mem_placedFrom h
    have hlength : (place ++ [n]).length ≤ place.length := hprefix.length_le
    rw [List.length_append, List.length_singleton] at hlength
    omega

/-- Each node of a row that is placed has a tag of its own. -/
theorem nodup_tags_placedFrom (place : Place) (index : Nat) (ts : List (Tree α)) :
    ((allSubtrees (placedFrom place index ts)).map tag).Nodup := by
  match ts with
  | [] => exact List.nodup_nil
  | t :: ts =>
    rw [placedFrom, allSubtrees, List.map_append]
    refine (nodup_tags_placedAt _ t).append (nodup_tags_placedFrom place _ ts) fun q hq hq' => ?_
    obtain ⟨n, hn, hprefix⟩ := prefix_of_mem_placedFrom hq'
    have hsame := index_unique (prefix_of_mem_tags hq) hprefix
    omega

end

/-- No two nodes of a tree have the same place. -/
theorem nodup_tags_placed (t : Tree α) : t.placed.tags.Nodup :=
  nodup_tags_placedAt [] t

end Flowchart.Tree
