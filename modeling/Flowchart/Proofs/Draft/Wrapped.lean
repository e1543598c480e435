import Flowchart.Proofs.Draft.Tagged

/-!
# `Flowchart.Proofs.Draft.Wrapped`: arms inside wrappers

The arms of a choice are not only its children. A wrapper among these is looked
into, and so is a wrapper inside it, to any depth. An arm that is a wrapper as
well is an arm, and the arms inside it are arms of the choice too.

So a node is looked at if there is nothing but wrappers between the choice and
it. The search has a stack of its own, on which the children of a wrapper are
laid where the wrapper was; it goes through the nodes in pre-order and comes
upon each of them once. It ends at the first kind that cannot be looked up.

* `OpenTo`, `FoundAt`: what stands between two nodes;
* `length_lookedAt_le`: how long the search is;
* `mem_reachedIn_placedAt`: the places of the nodes that are looked at;
* `mem_armPlaces`, `armPlaces_sublist`: the places of the arms, and their order;
* `arms_in_preorder`: what a search for arms finds.
-/

set_option autoImplicit false

namespace Flowchart

open Flowchart.Tree

namespace MarkedTree

variable {table : KindTable} {t child s : MarkedTree} {index : Nat} {way : Place}

/-- A node is a wrapper, and so are all others on the way to a place below it.
What stands at the place can be anything. -/
def OpenTo (table : KindTable) (t : MarkedTree) (way : Place) : Prop :=
  ∀ front wrapper, front <+: way → front ≠ way → t.at? front = some wrapper →
    table.has .armContainers wrapper.label.kind = true

/-- At a place below a node stands another one, and all nodes between the two are
wrappers. -/
structure FoundAt (table : KindTable) (t : MarkedTree) (place : Place) (s : MarkedTree) : Prop where
  below : place ≠ []
  here : t.at? place = some s
  between : ∀ front wrapper, front ≠ [] → front <+: place → front ≠ place →
    t.at? front = some wrapper → table.has .armContainers wrapper.label.kind = true

/-! ### The way to a node -/

/-- The way to a node itself is open. -/
theorem openTo_nil : OpenTo table t [] := by
  intro front wrapper hfront hne
  exact absurd (List.prefix_nil.1 hfront) hne

/-- A way through a child is open if the node is a wrapper and the rest of the
way is open. -/
theorem openTo_cons (h : t.children[index]? = some child) :
    OpenTo table t (index :: way) ↔
      table.has .armContainers t.label.kind = true ∧ OpenTo table child way := by
  constructor
  · intro hopen
    refine ⟨hopen [] t List.nil_prefix (by simp) rfl, ?_⟩
    intro front wrapper hfront hne hat
    refine hopen (index :: front) wrapper (List.cons_prefix_cons.2 ⟨rfl, hfront⟩) ?_ ?_
    · simpa using hne
    · rw [at?_cons h]
      exact hat
  -- The nodes on the way to a proper front are the first one and those on the rest of the way.
  · rintro ⟨hwrapper, hopen⟩ front wrapper hfront hne hat
    cases front with
    | nil =>
      obtain rfl : t = wrapper := Option.some.inj hat
      exact hwrapper
    | cons first front =>
      obtain ⟨rfl, hrest⟩ := List.cons_prefix_cons.1 hfront
      rw [at?_cons h] at hat
      exact hopen front wrapper hrest (by simpa using hne) hat

/-- What is found below a node stands at a place of one of its children. -/
theorem foundAt_cons (h : t.children[index]? = some child) :
    FoundAt table t (index :: way) s ↔ child.at? way = some s ∧ OpenTo table child way := by
  constructor
  · intro hfound
    refine ⟨by rw [← at?_cons h]; exact hfound.here, ?_⟩
    intro front wrapper hfront hne hat
    refine hfound.between (index :: front) wrapper (by simp) ?_ (by simpa using hne) ?_
    · exact List.cons_prefix_cons.2 ⟨rfl, hfront⟩
    · rw [at?_cons h]
      exact hat
  -- The nodes strictly between are those on the way from the child on.
  · rintro ⟨hat, hopen⟩
    refine ⟨by simp, by rw [at?_cons h]; exact hat, ?_⟩
    intro front wrapper hbelow hfront hne hwrapper
    cases front with
    | nil => exact absurd rfl hbelow
    | cons first front =>
      obtain ⟨rfl, hrest⟩ := List.cons_prefix_cons.1 hfront
      rw [at?_cons h] at hwrapper
      exact hopen front wrapper hrest (by simpa using hne) hwrapper

/-- What is found inside a node is behind an open way from a child. -/
theorem foundAt_iff {place : Place} : FoundAt table t place s ↔
    ∃ index way child, place = index :: way ∧ t.children[index]? = some child ∧
      child.at? way = some s ∧ OpenTo table child way := by
  constructor
  · intro hfound
    cases place with
    | nil => exact absurd rfl hfound.below
    | cons index way =>
      obtain ⟨child, hchild, _⟩ := Option.bind_eq_some_iff.1 hfound.here
      exact ⟨index, way, child, rfl, hchild, (foundAt_cons hchild).1 hfound⟩
  · rintro ⟨index, way, child, rfl, hchild, h⟩
    exact (foundAt_cons hchild).2 h

/-! ### The search -/

/-- The search looks at no more nodes than are on its stack and below. -/
theorem length_lookedAt_le (table : KindTable) (stack : List MarkedTree) :
    (lookedAt table stack).length ≤ Tree.sizes stack := by
  fun_induction lookedAt table stack with
  | case1 => exact Nat.le_refl _
  | case2 t stack inside ih =>
    have hinside : Tree.sizes inside ≤ Tree.sizes t.children := by
      simp only [inside]
      split
      · exact Nat.le_refl _
      · exact Nat.zero_le _
    rw [Tree.sizes_append] at ih
    rw [List.length_cons, Tree.sizes, Tree.size_eq]
    omega

/-- A search looks at fewer nodes than the tree has. -/
theorem length_lookedAt_children_lt (table : KindTable) (t : MarkedTree) :
    (lookedAt table t.children).length < t.size := by
  rw [Tree.size_eq]
  have hle := length_lookedAt_le table t.children
  omega

end MarkedTree

namespace TaggedTree

open MarkedTree

variable {ι : Type} {table : KindTable}

/-- What is reached in a row is reached in one of its trees. -/
theorem mem_allReachedIn {u : TaggedTree ι} {ts : List (TaggedTree ι)} :
    u ∈ allReachedIn table ts ↔ ∃ t ∈ ts, u ∈ reachedIn table t := by
  induction ts with
  | nil => simp [allReachedIn]
  | cons t ts ih => simp [allReachedIn, ih]

mutual

/-- What is looked at comes up in pre-order. -/
theorem reachedIn_sublist (t : TaggedTree ι) : (reachedIn table t).Sublist t.subtrees := by
  match t with
  | .node label children =>
    rw [reachedIn, subtrees]
    refine List.Sublist.cons_cons _ ?_
    split
    · exact allReachedIn_sublist children
    · exact List.nil_sublist _

/-- What is reached in a row comes in the order of the row, each node once. -/
theorem allReachedIn_sublist (ts : List (TaggedTree ι)) :
    (allReachedIn table ts).Sublist (allSubtrees ts) := by
  match ts with
  | [] => exact List.nil_sublist _
  | t :: ts =>
    rw [allReachedIn, allSubtrees]
    exact (reachedIn_sublist t).append (allReachedIn_sublist ts)

end

/-- Each tree of a row is placed by its number. -/
theorem mem_placedFrom {α : Type} {place : Place} {u : Tree (Place × α)} {ts : List (Tree α)} :
    u ∈ placedFrom place 0 ts ↔ ∃ index t, ts[index]? = some t ∧
      u = placedAt (place ++ [index]) t := by
  rw [placedFrom_eq, List.mem_map]
  constructor
  · rintro ⟨⟨t, index⟩, hmem, rfl⟩
    exact ⟨index, t, List.mem_zipIdx_iff_getElem?.1 hmem, rfl⟩
  · rintro ⟨index, t, ht, rfl⟩
    exact ⟨(t, index), List.mem_zipIdx_iff_getElem?.2 ht, rfl⟩

/-- The nodes that are looked at are those to which the way is open. -/
theorem mem_reachedIn_placedAt {t : MarkedTree} {place : Place} {u : TaggedTree Place} :
    u ∈ reachedIn table (placedAt place t) ↔
      ∃ way s, t.at? way = some s ∧ OpenTo table t way ∧ u = placedAt (place ++ way) s := by
  induction t using Tree.induction generalizing place with
  | node label children ih =>
    have hself : placedAt place (.node label children) =
        .node (place, label) (placedFrom place 0 children) := rfl
    rw [hself, reachedIn, List.mem_cons]
    constructor
    · rintro (rfl | h)
      · exact ⟨[], .node label children, rfl, openTo_nil, by rw [List.append_nil, hself]⟩
      · -- The node is a wrapper, and the other one is in a child.
        split at h
        · rename_i hwrapper
          obtain ⟨u', hu', h⟩ := mem_allReachedIn.1 h
          obtain ⟨index, child, hchild, rfl⟩ := mem_placedFrom.1 hu'
          obtain ⟨way, s, hs, hopen, rfl⟩ := (ih child (List.mem_of_getElem? hchild)).1 h
          refine ⟨index :: way, s, ?_, (openTo_cons hchild).2 ⟨hwrapper, hopen⟩, ?_⟩
          · rw [at?_cons hchild, hs]
          · rw [List.append_assoc, List.singleton_append]
        · cases h
    · rintro ⟨way, s, hs, hopen, rfl⟩
      -- An empty way leads to the node itself, any other one through a child.
      cases way with
      | nil =>
        obtain rfl : Tree.node label children = s := Option.some.inj hs
        left
        rw [List.append_nil, hself]
      | cons index way =>
        right
        obtain ⟨child, hchild, hs⟩ := Option.bind_eq_some_iff.1 hs
        obtain ⟨hwrapper, hopen⟩ := (openTo_cons hchild).1 hopen
        rw [if_pos (show table.has .armContainers (place, label).2.kind = true from hwrapper)]
        refine mem_allReachedIn.2 ⟨_, mem_placedFrom.2 ⟨index, child, hchild, rfl⟩, ?_⟩
        refine (ih child (List.mem_of_getElem? hchild)).2 ⟨way, s, hs, hopen, ?_⟩
        rw [List.append_assoc, List.singleton_append]

/-- In a search below a node, those are looked at that are found below it. -/
theorem mem_allReachedIn_placed {t : MarkedTree} {u : TaggedTree Place} :
    u ∈ allReachedIn table t.placed.children ↔
      ∃ place s, FoundAt table t place s ∧ u = placedAt place s := by
  obtain ⟨label, children⟩ := t
  show u ∈ allReachedIn table (placedFrom [] 0 children) ↔ _
  simp only [mem_allReachedIn, foundAt_iff]
  constructor
  · rintro ⟨u', hu', h⟩
    obtain ⟨index, child, hchild, rfl⟩ := mem_placedFrom.1 hu'
    obtain ⟨way, s, hs, hopen, rfl⟩ := mem_reachedIn_placedAt.1 h
    exact ⟨index :: way, s, ⟨index, way, child, rfl, hchild, hs, hopen⟩, rfl⟩
  · rintro ⟨place, s, ⟨index, way, child, rfl, hchild, hs, hopen⟩, rfl⟩
    refine ⟨_, mem_placedFrom.2 ⟨index, child, hchild, rfl⟩, ?_⟩
    exact mem_reachedIn_placedAt.2 ⟨way, s, hs, hopen, rfl⟩

/-- The tagged arms of a placed tree are those found in it that play the role.
-/
theorem mem_armsIn_placed {t : MarkedTree} {u : TaggedTree Place} :
    u ∈ armsIn table t.placed ↔ ∃ place arm, FoundAt table t place arm ∧
      table.has .arms arm.label.kind = true ∧ u = placedAt place arm := by
  rw [armsIn, List.mem_filter, mem_allReachedIn_placed]
  constructor
  · rintro ⟨⟨place, arm, hfound, rfl⟩, harm⟩
    rw [plain_placedAt] at harm
    exact ⟨place, arm, hfound, harm, rfl⟩
  · rintro ⟨place, arm, hfound, harm, rfl⟩
    rw [plain_placedAt]
    exact ⟨⟨place, arm, hfound, rfl⟩, harm⟩

/-- The places of the arms are among those of all nodes, in the same order. -/
theorem armPlaces_sublist (table : KindTable) (t : MarkedTree) :
    ((armsIn table t.placed).map tag).Sublist t.placed.tags := by
  rw [tags, subtrees_eq]
  exact ((List.filter_sublist.trans (allReachedIn_sublist _)).cons _).map tag

/-- The places of the arms are those of the nodes that are found and play the
role. -/
theorem mem_armPlaces {t : MarkedTree} {place : Place} :
    place ∈ (armsIn table t.placed).map tag ↔
      ∃ arm, FoundAt table t place arm ∧ table.has .arms arm.label.kind = true := by
  rw [List.mem_map]
  constructor
  · rintro ⟨u, hu, rfl⟩
    obtain ⟨place, arm, hfound, harm, rfl⟩ := mem_armsIn_placed.1 hu
    rw [tag_placedAt]
    exact ⟨arm, hfound, harm⟩
  · rintro ⟨arm, hfound, harm⟩
    exact ⟨_, mem_armsIn_placed.2 ⟨place, arm, hfound, harm, rfl⟩, tag_placedAt place arm⟩

/-- At the places of the arms stand the arms. -/
theorem at?_armPlaces (table : KindTable) (t : MarkedTree) :
    ((armsIn table t.placed).map tag).map t.at? = (t.arms table).map some := by
  have harms : t.arms table = (armsIn table t.placed).map plain := by
    rw [map_plain_armsIn, plain_placed]
  rw [harms, List.map_map, List.map_map]
  refine List.map_congr_left ?_
  intro u hu
  obtain ⟨place, arm, hfound, _, rfl⟩ := mem_armsIn_placed.1 hu
  show t.at? (placedAt place arm).tag = some (placedAt place arm).plain
  rw [tag_placedAt, plain_placedAt, hfound.here]

end TaggedTree

namespace MarkedTree

open TaggedTree

variable {table : KindTable} {t s : MarkedTree}

/-- What a search looks at is what can be found. -/
theorem mem_lookedAt_children :
    s ∈ lookedAt table t.children ↔ ∃ place, FoundAt table t place s := by
  have hplain : (allReachedIn table t.placed.children).map plain = lookedAt table t.children := by
    rw [map_plain_allReachedIn, ← children_plain, plain_placed]
  rw [← hplain, List.mem_map]
  constructor
  · rintro ⟨u, hu, rfl⟩
    obtain ⟨place, s, hfound, rfl⟩ := mem_allReachedIn_placed.1 hu
    exact ⟨place, by rwa [plain_placedAt]⟩
  · rintro ⟨place, hfound⟩
    exact ⟨_, mem_allReachedIn_placed.2 ⟨place, s, hfound, rfl⟩, plain_placedAt place s⟩

/-- A search for arms comes to its end, unless it finds a kind that cannot be
looked up. -/
theorem armRefusal?_eq_none_iff : t.armRefusal? table = none ↔
    ∀ place s, FoundAt table t place s → s.label.kind.isKey = true := by
  rw [armRefusal?, firstRefused?, Option.map_eq_none_iff, List.find?_eq_none]
  constructor
  · intro h place s hfound
    simpa using h s (mem_lookedAt_children.2 ⟨place, hfound⟩)
  · intro h s hs
    obtain ⟨place, hfound⟩ := mem_lookedAt_children.1 hs
    simpa using h place s hfound

/-- The arms of a choice are the nodes of such a kind that are found below it, in
pre-order and each of them once. The search looks at fewer nodes than there are
in the choice, and ends early only at a kind that cannot be looked up. -/
theorem arms_in_preorder (table : KindTable) (t : MarkedTree) :
    (lookedAt table t.children).length < t.size ∧
      (t.armRefusal? table = none ↔
        ∀ place s, FoundAt table t place s → s.label.kind.isKey = true) ∧
      ∃ places : List Place, places.Sublist t.placed.tags ∧ places.Nodup ∧
        (∀ place, place ∈ places ↔
          ∃ arm, FoundAt table t place arm ∧ table.has .arms arm.label.kind = true) ∧
        places.map t.at? = (t.arms table).map some := by
  have hplaces := armPlaces_sublist table t
  exact ⟨length_lookedAt_children_lt table t, armRefusal?_eq_none_iff, _, hplaces,
    hplaces.nodup (nodup_tags_placed t), fun _ => mem_armPlaces, at?_armPlaces table t⟩

end MarkedTree

end Flowchart
