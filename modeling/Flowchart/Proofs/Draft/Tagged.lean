import Mathlib.Data.List.Flatten
import Mathlib.Data.List.Perm.Subperm
import Flowchart.Proofs.Kinds.Known
import Flowchart.Proofs.Syntax.Tagged

/-!
# `Flowchart.Proofs.Draft.Tagged`: searches among nodes that are told apart

A construct finds its body, its other part and its arms by what kinds they
are, among its children and inside wrappers. On a tree whose nodes carry tags
the same searches tell which nodes they find, so that two parts that look the
same are still two.

No node is below two parts of a construct. For arms this rests on wrappers
that are no arms, since all inside a wrapper is looked at again: arms are then
found in pre-order, and none of them inside another. A body and an other part
are two children where their kinds are kept apart.

* `childIn?`, `armsIn`, `partsIn`: the searches, with tags;
* `map_plain_partsIn`: without the tags they are the searches that drafting
  makes;
* `subperm_partsIn`: the parts of a construct share no node.
-/

set_option autoImplicit false

namespace Flowchart

/-- A marked tree whose nodes carry tags. -/
abbrev TaggedTree (ι : Type) := Tree (ι × MarkedInfo)

open Flowchart.Tree

namespace TaggedTree

variable {ι : Type} {table : KindTable}

/-! ### The searches -/

section

variable (table : KindTable)

/-- The first child whose kind plays a role. -/
def childIn? (role : Role) (t : TaggedTree ι) : Option (TaggedTree ι) :=
  (t.children.takeWhile fun child => child.plain.label.kind.isKey).find? fun child =>
    table.has role child.plain.label.kind

/-- The named children of a node. -/
def namedIn (t : TaggedTree ι) : List (TaggedTree ι) :=
  t.children.filter fun child => child.plain.label.isNamed

mutual

/-- What is looked at of a node in a search for arms: the node, and what is
inside it if it is a wrapper. -/
def reachedIn : TaggedTree ι → List (TaggedTree ι)
  | .node label children => .node label children ::
      if table.has .armContainers label.2.kind then allReachedIn children else []

/-- What is looked at of a row of nodes. -/
def allReachedIn : List (TaggedTree ι) → List (TaggedTree ι)
  | [] => []
  | t :: ts => reachedIn t ++ allReachedIn ts

end

/-- The arms of a choice, in source order. -/
def armsIn (t : TaggedTree ι) : List (TaggedTree ι) :=
  (allReachedIn table t.children).filter fun arm => table.has .arms arm.plain.label.kind

/-- The nodes that are to be drafted for a node, in order. -/
def partsIn (mode : Draft.Mode) (t : TaggedTree ι) : List (TaggedTree ι) :=
  match mode with
  | .chain => namedIn t
  | .visit =>
    match table.category? t.plain.label.kind with
    | some .branch =>
      (childIn? table .bodies t).toList ++ (childIn? table .alternatives t).toList
    | some .loop => (childIn? table .bodies t).toList
    | some .choice => armsIn table t
    | some .terminator => []
    | some .function => (childIn? table .bodies t).toList
    | none => if table.isContainer t.plain.label then namedIn t else []

end

/-! ### Without the tags -/

/-- The tagged child for a role is the child for it. -/
theorem map_plain_childIn? (role : Role) (t : TaggedTree ι) :
    (childIn? table role t).map plain = MarkedTree.child? table role t.plain := by
  rw [childIn?, MarkedTree.child?, children_plain, List.takeWhile_map, List.find?_map]
  rfl

/-- The tagged children that are named are the named children. -/
theorem map_plain_namedIn (t : TaggedTree ι) :
    (namedIn t).map plain = MarkedTree.namedChildren t.plain := by
  rw [namedIn, MarkedTree.namedChildren, children_plain, List.filter_map]
  rfl

mutual

/-- The tagged nodes that a search reaches are those that are looked at. -/
theorem map_plain_reachedIn (t : TaggedTree ι) :
    (reachedIn table t).map plain = MarkedTree.lookedAt table [t.plain] := by
  match t with
  | .node label children =>
    have hlabel : (plain (.node label children)).label = label.2 := label_plain _
    rw [reachedIn, MarkedTree.lookedAt_cons, hlabel, List.map_cons, List.append_nil, children_plain]
    by_cases hwrapper : table.has .armContainers label.2.kind = true
    · rw [if_pos hwrapper, if_pos hwrapper, map_plain_allReachedIn, children_node]
    · rw [if_neg hwrapper, if_neg hwrapper, List.map_nil, MarkedTree.lookedAt_nil]

/-- The same of a row. -/
theorem map_plain_allReachedIn (ts : List (TaggedTree ι)) :
    (allReachedIn table ts).map plain = MarkedTree.lookedAt table (ts.map plain) := by
  match ts with
  | [] => exact (MarkedTree.lookedAt_nil table).symm
  | t :: ts =>
    rw [allReachedIn, List.map_append, map_plain_reachedIn, map_plain_allReachedIn,
      ← MarkedTree.lookedAt_append]
    rfl

end

/-- The tagged arms are the arms. -/
theorem map_plain_armsIn (t : TaggedTree ι) :
    (armsIn table t).map plain = MarkedTree.arms table t.plain := by
  rw [armsIn, MarkedTree.arms, children_plain, ← map_plain_allReachedIn, List.filter_map]
  rfl

/-! ### No node is below two parts -/

/-- Some of the nodes in a row have below them some of what is below the row. -/
theorem sublist_allSubtrees {α : Type} {ts us : List (Tree α)} (h : ts.Sublist us) :
    (allSubtrees ts).Sublist (allSubtrees us) := by
  rw [allSubtrees_eq_flatMap, allSubtrees_eq_flatMap]
  exact h.flatMap subtrees

mutual

/-- Where arms are no wrappers, the arms that are reached share no node. -/
theorem sublist_reachedIn (hapart : table.Apart .arms .armContainers) (t : TaggedTree ι) :
    (allSubtrees
        ((reachedIn table t).filter fun arm => table.has .arms arm.plain.label.kind)).Sublist
      t.subtrees := by
  match t with
  | .node label children =>
    rw [reachedIn, List.filter_cons]
    split
    · -- What is inside an arm is not looked at.
      rename_i harm
      have hclosed := hapart _ harm
      rw [label_plain] at hclosed
      simp only [label_node] at hclosed
      rw [hclosed]
      simp only [Bool.false_eq_true, if_false, List.filter_nil, allSubtrees, List.append_nil]
      exact List.Sublist.refl _
    · refine List.Sublist.cons _ ?_
      split
      · exact sublist_allReachedIn hapart children
      · exact List.nil_sublist _

/-- The nodes of the arms of a row are nodes of the row, each once and in order,
if no arm can be a wrapper. -/
theorem sublist_allReachedIn (hapart : table.Apart .arms .armContainers)
    (ts : List (TaggedTree ι)) :
    (allSubtrees
      ((allReachedIn table ts).filter fun arm => table.has .arms arm.plain.label.kind)).Sublist
      (allSubtrees ts) := by
  match ts with
  | [] => exact List.nil_sublist _
  | t :: ts =>
    have happend := (sublist_reachedIn hapart t).append (sublist_allReachedIn hapart ts)
    rwa [allReachedIn, List.filter_append, allSubtrees_eq_flatMap, List.flatMap_append,
      ← allSubtrees_eq_flatMap, ← allSubtrees_eq_flatMap]

end

/-- The tagged child for a role is a child and plays the role. -/
theorem mem_of_childIn? {role : Role} {t child : TaggedTree ι}
    (h : childIn? table role t = some child) :
    child ∈ t.children ∧ table.has role child.plain.label.kind = true := by
  have hhas := List.find?_some h
  exact ⟨(List.takeWhile_prefix _).subset (List.mem_of_find?_eq_some h), hhas⟩

/-- One child at most is taken for a role. -/
theorem sublist_childIn? (role : Role) (t : TaggedTree ι) :
    (childIn? table role t).toList.Sublist t.children := by
  cases h : childIn? table role t with
  | none => exact List.nil_sublist _
  | some child => exact List.singleton_sublist.2 (mem_of_childIn? h).1

/-- A body and an other part are two children. -/
theorem subperm_children (hapart : table.Apart .bodies .alternatives) (t : TaggedTree ι) :
    List.Subperm ((childIn? table .bodies t).toList ++ (childIn? table .alternatives t).toList)
      t.children := by
  cases hbody : childIn? table .bodies t with
  | none => exact (sublist_childIn? .alternatives t).subperm
  | some body =>
    cases hother : childIn? table .alternatives t with
    | none => exact (List.singleton_sublist.2 (mem_of_childIn? hbody).1).subperm
    | some other =>
      obtain ⟨hbody, hbodies⟩ := mem_of_childIn? hbody
      obtain ⟨hother, halternatives⟩ := mem_of_childIn? hother
      -- No kind is both that of a body and that of an alternative.
      have hne : body ≠ other := by
        rintro rfl
        rw [hapart _ hbodies] at halternatives
        cases halternatives
      exact List.subperm_of_subset (by simpa using hne) (by simp [hbody, hother])

/-- The parts of a construct share no node. -/
theorem subperm_partsIn (harms : table.Apart .arms .armContainers)
    (hbodies : table.Apart .bodies .alternatives) (mode : Draft.Mode) (t : TaggedTree ι) :
    List.Subperm (allSubtrees (partsIn table mode t)) (allSubtrees t.children) := by
  have hsome : ∀ ts : List (TaggedTree ι), ts.Sublist t.children →
      List.Subperm (allSubtrees ts) (allSubtrees t.children) := fun ts h =>
    (sublist_allSubtrees h).subperm
  have hnamed := hsome (namedIn t) List.filter_sublist
  have hbody := hsome (childIn? table .bodies t).toList (sublist_childIn? .bodies t)
  have hnone : List.Subperm (allSubtrees ([] : List (TaggedTree ι))) (allSubtrees t.children) :=
    List.nil_subperm
  unfold partsIn
  split
  · exact hnamed
  · split
    -- The two parts of a branch can stand in any order among its children.
    · obtain ⟨ts, hperm, hsublist⟩ := subperm_children hbodies t
      refine (List.Perm.subperm ?_).trans (hsome ts hsublist)
      rw [allSubtrees_eq_flatMap, allSubtrees_eq_flatMap]
      exact (hperm.flatMap_right _).symm
    · exact hbody
    · exact (sublist_allReachedIn harms t.children).subperm
    · exact hnone
    · exact hbody
    · split
      · exact hnamed
      · exact hnone

end TaggedTree

namespace Draft

open TaggedTree

/-- A request for a node of a tree whose nodes are told apart. -/
structure Ask (ι : Type) where
  mode : Mode
  tree : TaggedTree ι
  path : Path

namespace Ask

variable {ι : Type} {table : KindTable}

/-- The request without the tags. -/
def request (q : Ask ι) : Request :=
  ⟨q.mode, q.tree.plain, q.path⟩

/-- A request for a node that is told apart. -/
def of (r : Request) (t : TaggedTree ι) : Ask ι :=
  ⟨r.mode, t, r.path⟩

/-- The parts of a construct that are to be drafted, in order. -/
def parts (table : KindTable) (q : Ask ι) : List (Part × Ask ι) :=
  List.zipWith (fun p t => (p.1, of p.2 t)) (q.request.parts table)
    (partsIn table q.mode q.tree)

/-- The parts of a request are about the nodes that the searches find. -/
theorem map_plain_partsIn (q : Ask ι) :
    (partsIn table q.mode q.tree).map plain = (q.request.parts table).map fun p => p.2.tree := by
  -- The three kinds of parts, each with tags and without them.
  have hnamed : (namedIn q.tree).map plain =
      (Request.links q.request.tree q.request.path).map fun p => p.2.tree := by
    rw [map_plain_namedIn, Request.tree_links]
    rfl
  have hinside : ∀ (part : Part) (role : Role), (childIn? table role q.tree).toList.map plain =
      (Request.inside? part q.path (MarkedTree.child? table role q.tree.plain)).map
        fun p => p.2.tree := by
    intro part role
    rw [← Option.toList_map, map_plain_childIn?]
    cases MarkedTree.child? table role q.tree.plain <;> rfl
  have harms : (armsIn table q.tree).map plain =
      (Request.armParts table q.request.tree q.request.path).map fun p => p.2.tree := by
    rw [map_plain_armsIn, Request.tree_armParts]
    rfl
  have hmode : q.request.mode = q.mode := rfl
  cases h : q.mode with
  | chain =>
    simp only [partsIn, Request.parts, hmode, h]
    exact hnamed
  | visit =>
    have hkind : q.request.tree.label = q.tree.plain.label := rfl
    cases hcategory : table.category? q.tree.plain.label.kind with
    | none =>
      simp only [partsIn, Request.parts, hmode, h, hkind, hcategory]
      split
      · exact hnamed
      · rfl
    | some category =>
      simp only [partsIn, Request.parts, hmode, h, hkind, hcategory]
      cases category with
      | branch =>
        rw [List.map_append, List.map_append]
        exact congrArg₂ _ (hinside .body .bodies) (hinside .alternative .alternatives)
      | loop => exact hinside .body .bodies
      | choice => exact harms
      | terminator => rfl
      | function => exact hinside .body .bodies

/-- Requests that are paired with tagged trees stay the same, and so do the
trees. -/
theorem zipWith_of {parts : List (Part × Request)} {ts : List (TaggedTree ι)}
    (h : ts.map plain = parts.map fun p => p.2.tree) :
    (List.zipWith (fun p t => (p.1, of p.2 t)) parts ts).map (fun p => (p.1, p.2.request)) = parts ∧
      (List.zipWith (fun p t => (p.1, of p.2 t)) parts ts).map (fun p => p.2.tree) = ts := by
  induction parts generalizing ts with
  | nil =>
    rw [List.map_nil, List.map_eq_nil_iff] at h
    subst h
    exact ⟨rfl, rfl⟩
  | cons p parts ih =>
    cases ts with
    | nil => cases h
    | cons t ts =>
      -- The two lists have the same length, since they have the same trees.
      obtain ⟨htree, hrest⟩ := List.cons_eq_cons.1 h
      obtain ⟨hparts, htrees⟩ := ih hrest
      rw [List.zipWith_cons_cons, List.map_cons, List.map_cons, hparts, htrees, request, of, htree]
      exact ⟨rfl, rfl⟩

/-- Without the tags the parts are those of the request. -/
theorem request_parts (q : Ask ι) :
    (q.parts table).map (fun p => (p.1, p.2.request)) = q.request.parts table :=
  (zipWith_of q.map_plain_partsIn).1

/-- The parts of a request for a tagged tree go to the tagged parts. -/
theorem tree_parts (q : Ask ι) :
    (q.parts table).map (fun p => p.2.tree) = partsIn table q.mode q.tree :=
  (zipWith_of q.map_plain_partsIn).2

/-- A part is smaller than what it is a part of. -/
theorem parts_size_lt {q : Ask ι} {p : Part × Ask ι} (h : p ∈ q.parts table) :
    p.2.request.tree.size < q.request.tree.size := by
  have hmem : (p.1, p.2.request) ∈ q.request.parts table := by
    rw [← q.request_parts]
    exact List.mem_map.2 ⟨p, h, rfl⟩
  exact Request.parts_size_lt hmem

end Ask

end Draft

end Flowchart
