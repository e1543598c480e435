/-!
# `Flowchart.Syntax.Tree`: labelled trees

Trees whose nodes carry a label and any number of children in order. The
functions on trees come in pairs, one for a tree and one for a row of
trees, and recurse on the tree itself.

- `Tree.induction`: what holds of a node when it holds of its children
  holds of every tree;
- `size_lt_of_mem`: a child is smaller than its parent;
- `ofPreorder`: the trees that a pre-order listing with child counts stands
  for, and `ofPreorder_listing`: such a listing gives its tree back.
-/

set_option autoImplicit false

namespace Flowchart

/-- A tree with a label at every node. -/
inductive Tree (α : Type) where
  | node (label : α) (children : List (Tree α))

namespace Tree

variable {α β : Type}

/-- The label of the root. -/
def label : Tree α → α
  | .node label _ => label

/-- The children of the root. -/
def children : Tree α → List (Tree α)
  | .node _ children => children

/-- The label of a node. -/
@[simp]
theorem label_node (a : α) (ts : List (Tree α)) : (node a ts).label = a := rfl

/-- The children of a node. -/
@[simp]
theorem children_node (a : α) (ts : List (Tree α)) : (node a ts).children = ts := rfl

instance [Inhabited α] : Inhabited (Tree α) := ⟨.node default []⟩

/-- A property that passes from the children of a node to the node holds of
every tree. -/
@[induction_eliminator]
theorem induction {motive : Tree α → Prop}
    (node : ∀ label children, (∀ t ∈ children, motive t) → motive (.node label children))
    (t : Tree α) : motive t :=
  @Tree.rec α motive (fun ts => ∀ t ∈ ts, motive t)
    (fun label children ih => node label children ih)
    (fun _ h => nomatch h)
    (fun t ts iht ihts s hs => by
      rcases List.mem_cons.1 hs with rfl | hs
      · exact iht
      · exact ihts s hs) t

mutual

/-- How many nodes a tree has. -/
def size : Tree α → Nat
  | .node _ children => sizes children + 1

/-- How many nodes a row of trees has. -/
def sizes : List (Tree α) → Nat
  | [] => 0
  | t :: ts => size t + sizes ts

end

/-- A tree has its root and the nodes of its children. -/
theorem size_eq (t : Tree α) : t.size = sizes t.children + 1 := by
  cases t
  simp [size]

/-- A tree has a node. -/
theorem size_pos (t : Tree α) : 0 < t.size := by
  rw [size_eq]
  omega

/-- Two rows in one have the nodes of both. -/
theorem sizes_append (ts us : List (Tree α)) : sizes (ts ++ us) = sizes ts + sizes us := by
  induction ts with
  | nil => simp [sizes]
  | cons t ts ih => simp [sizes, ih, Nat.add_assoc]

/-- A row has no fewer nodes than each of its trees. -/
theorem size_le_sizes {t : Tree α} {ts : List (Tree α)} (h : t ∈ ts) : t.size ≤ sizes ts := by
  induction ts with
  | nil => cases h
  | cons s ts ih =>
    simp only [sizes]
    rcases List.mem_cons.1 h with rfl | h
    · omega
    · have := ih h
      omega

/-- A child has fewer nodes than its parent. -/
theorem size_lt_of_mem {t s : Tree α} (h : s ∈ t.children) : s.size < t.size := by
  have := size_le_sizes h
  rw [size_eq t]
  omega

mutual

/-- A tree with a function applied to every label. -/
def map (f : α → β) : Tree α → Tree β
  | .node label children => .node (f label) (mapAll f children)

/-- A row of trees with a function applied to every label. -/
def mapAll (f : α → β) : List (Tree α) → List (Tree β)
  | [] => []
  | t :: ts => map f t :: mapAll f ts

end

/-- A row is mapped tree by tree. -/
theorem mapAll_eq_map (f : α → β) (ts : List (Tree α)) : mapAll f ts = ts.map (map f) := by
  induction ts with
  | nil => rfl
  | cons t ts ih => simp [mapAll, ih]

mutual

/-- The subtrees of a tree in pre-order, the tree itself first. -/
def subtrees : Tree α → List (Tree α)
  | .node label children => .node label children :: allSubtrees children

/-- The subtrees of a row of trees in pre-order. -/
def allSubtrees : List (Tree α) → List (Tree α)
  | [] => []
  | t :: ts => subtrees t ++ allSubtrees ts

end

/-- The nodes of a row are those of its trees. -/
theorem allSubtrees_eq_flatMap (ts : List (Tree α)) : allSubtrees ts = ts.flatMap subtrees := by
  induction ts with
  | nil => rfl
  | cons t ts ih => simp [allSubtrees, ih]

mutual

/-- The subtrees of a tree, the tree itself first and its last child before
the others. -/
def backward : Tree α → List (Tree α)
  | .node label children => .node label children :: allBackward children

/-- The subtrees of a row of trees, those of the last tree first. -/
def allBackward : List (Tree α) → List (Tree α)
  | [] => []
  | t :: ts => allBackward ts ++ backward t

end

/-- The labels of a tree in pre-order, each with its number of children. -/
def listing (t : Tree α) : List (α × Nat) :=
  t.subtrees.map fun s => (s.label, s.children.length)

/-- The trees that a pre-order listing stands for. Read from its end, each
entry takes as many of the finished trees for children as it counts. -/
def ofPreorder (entries : List (α × Nat)) : List (Tree α) :=
  entries.foldr (fun entry ts => .node entry.1 (ts.take entry.2) :: ts.drop entry.2) []

/-- Reading the listing of a tree in front of other trees puts the tree in
front of them. -/
theorem foldr_listing (t : Tree α) (rest : List (Tree α)) :
    t.listing.foldr (fun entry ts => .node entry.1 (ts.take entry.2) :: ts.drop entry.2) rest =
      t :: rest := by
  induction t generalizing rest with
  | node a ts ih =>
    -- The same of a row of trees, by induction on the row inside the one on the tree.
    have hts : ∀ (us : List (Tree α)), (∀ u ∈ us, u ∈ ts) → ∀ rest : List (Tree α),
        ((allSubtrees us).map fun s => (s.label, s.children.length)).foldr
          (fun entry ts => .node entry.1 (ts.take entry.2) :: ts.drop entry.2) rest =
            us ++ rest := by
      intro us
      induction us with
      | nil => intro _ rest; rfl
      | cons u us ihu =>
        intro h rest
        rw [allSubtrees, List.map_append, List.foldr_append,
          ihu (fun v hv => h v (List.mem_cons_of_mem u hv))]
        exact ih u (h u List.mem_cons_self) (us ++ rest)
    simp only [listing, subtrees, List.map_cons, List.foldr_cons, hts ts (fun _ h => h)]
    simp

/-- The listing of a tree gives the tree back. -/
theorem ofPreorder_listing (t : Tree α) : ofPreorder t.listing = [t] :=
  foldr_listing t []

end Tree

end Flowchart
