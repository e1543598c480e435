import Mathlib.Data.List.Find
import Flowchart.Proofs.Draft.Recursion
import Flowchart.Proofs.Kinds.Extension
import Flowchart.Proofs.Kinds.Marks

/-!
# `Flowchart.Proofs.Kinds.Agreement`: tables that say the same of a kind

Two tables that say the same of every kind that occurs in a tree draft the same
of it. They need not say the same in all: which category a kind belongs to
counts, not in which sets of a category it is, and whether a kind is a
container is only asked where it has no category. So a table with more kinds,
in which every function is a container as well, is no different on trees
without those kinds, even where it makes containers of functions that were
none.

Each search for a part of a construct looks at nodes of its tree alone, so
there is one lemma for each search, and the draft follows by recursion into
the parts.

* `Agree`: two tables say the same of a kind;
* `agree_extend`: a table and one with more kinds say the same of the others;
* `mark_eq_of_agree`, `start_eq_of_agree`, `parts_eq_of_agree`: what a node is
  taken for, what is opened for it and what it is taken apart into;
* `serve_eq_of_agree`, `draft_eq_of_agree`: what is drafted.
-/

set_option autoImplicit false

open Flowchart.Tree

namespace Flowchart

namespace KindTable

/-- Whether kinds of a role are looked for whatever else they are. Those of
categories have an order, and containers only count without a category. -/
def isLookedFor : Role → Bool
  | .branches | .loops | .choices | .terminators | .functions | .containers => false
  | _ => true

/-- Two tables say the same of a kind. -/
structure Agree (table other : KindTable) (kind : Json) : Prop where
  category : table.category? kind = other.category? kind
  role : ∀ role, isLookedFor role = true → table.has role kind = other.has role kind
  container : table.category? kind = none →
    table.has .containers kind = other.has .containers kind

/-- Two tables say the same of every kind of a tree. -/
def AgreeOn (table other : KindTable) (t : SyntaxTree) : Prop :=
  ∀ s ∈ t.subtrees, table.Agree other s.label.kind

/-- The same for a marked tree. -/
def AgreeIn (table other : KindTable) (t : MarkedTree) : Prop :=
  ∀ s ∈ t.subtrees, table.Agree other s.label.kind

variable {table other : KindTable}

/-- Where tables agree, the kind is structural for both or for neither. -/
theorem Agree.isStructural {kind : Json} (h : table.Agree other kind) :
    table.isStructural kind = other.isStructural kind :=
  congrArg Option.isSome h.category

/-! ### More kinds -/

/-- A kind without a category is in none of the sets of the categories. -/
theorem not_has_of_category {kind : Json} (h : table.category? kind = none)
    (category : Category) : table.has category.role kind = false := by
  have hall := List.find?_eq_none.1 h
  have hmem : category ∈ Category.all := by
    cases category <;> decide
  simpa using hall category hmem

/-- Tables say the same of a kind if at most its being a container is told
apart, and that only where it has a category. -/
theorem agree_of_has {kind : Json}
    (h : ∀ role, role ≠ .containers → table.has role kind = other.has role kind)
    (hcontainer : table.category? kind = none →
      table.has .containers kind = other.has .containers kind) : table.Agree other kind := by
  constructor
  · refine List.find?_congr fun category _ => h category.role ?_
    cases category <;> decide
  · intro role hrole
    refine h role ?_
    rintro rfl
    cases hrole
  · exact hcontainer

/-- A table and one with more kinds say the same of any kind that is none of
them. -/
theorem agree_extend {extra : Role → KindSet} {kind : Json}
    (h : ∀ role, kind.key ∉ extra role) : table.Agree (table.extend extra) kind := by
  refine agree_of_has ?_ ?_
  · intro role hrole
    rw [has_extend hrole, decide_eq_false (h role), Bool.or_false]
  · intro hcategory
    have hfunction : table.has .functions kind = false := not_has_of_category hcategory .function
    rw [has_extend_containers, hfunction, decide_eq_false (h .containers),
      decide_eq_false (h .functions)]
    simp

/-! ### Marks -/

namespace AgreeIn

variable {t : MarkedTree}

/-- Tables that agree in a tree agree on its root. -/
theorem root (h : table.AgreeIn other t) : table.Agree other t.label.kind :=
  h t (mem_subtrees_self t)

/-- Tables that agree in a tree agree in every part of it. -/
theorem subtree {s : MarkedTree} (h : table.AgreeIn other t) (hs : s ∈ t.subtrees) :
    table.AgreeIn other s :=
  fun u hu => h u (mem_subtrees_trans hs hu)

/-- Tables that agree in a tree agree in its children. -/
theorem child {s : MarkedTree} (h : table.AgreeIn other t) (hs : s ∈ t.children) :
    table.AgreeIn other s :=
  h.subtree (mem_subtrees_of_mem_children hs (mem_subtrees_self s))

end AgreeIn

/-- Tables that agree on a tree agree on its children. -/
theorem AgreeOn.child {s t : SyntaxTree} (h : table.AgreeOn other t) (hs : s ∈ t.children) :
    table.AgreeOn other s :=
  fun u hu => h u (mem_subtrees_of_mem_children hs hu)

/-- Marking leaves the kinds of a tree as they are. -/
theorem AgreeOn.mark {t : SyntaxTree} (h : table.AgreeOn other t) (marking : KindTable) :
    table.AgreeIn other (marking.mark t) := by
  intro s hs
  rw [subtrees_mark] at hs
  obtain ⟨u, hu, rfl⟩ := List.mem_map.1 hs
  rw [mark_label]
  exact h u hu

/-- Tables that agree on a tree mark it in the same way. -/
theorem mark_eq_of_agree {t : SyntaxTree} (h : table.AgreeOn other t) :
    table.mark t = other.mark t := by
  induction t using Tree.induction with
  | node info children ih =>
    have hmarked : table.markAll children = other.markAll children := by
      rw [markAll_eq_map, markAll_eq_map]
      exact List.map_congr_left fun child hchild => ih child hchild (h.child hchild)
    -- The mark of a node looks at those of its children and at their kinds.
    have hany : (other.markAll children).any table.showsStructure =
        (other.markAll children).any other.showsStructure := by
      rw [Bool.eq_iff_iff, List.any_eq_true, List.any_eq_true, markAll_eq_map]
      refine exists_congr fun s => and_congr_right fun hs => ?_
      obtain ⟨child, hchild, rfl⟩ := List.mem_map.1 hs
      have hroot := ((h.child hchild).mark other).root
      rw [showsStructure, showsStructure, MarkedTree.kind, hroot.isStructural]
    simp only [KindTable.mark, hmarked, hany]

/-- Tables that agree on the kinds of a row refuse the same kind of it. -/
theorem rowRefusal?_eq_of_agree {ts : List MarkedTree}
    (h : ∀ t ∈ ts, table.Agree other t.label.kind) :
    table.rowRefusal? ts = other.rowRefusal? ts := by
  induction ts with
  | nil => rfl
  | cons t ts ih =>
    obtain ⟨ht, hts⟩ := List.forall_mem_cons.1 h
    rw [rowRefusal?, rowRefusal?, MarkedTree.kind, ht.isStructural, ih hts]

/-- Tables that agree in a tree refuse the same kind of it. -/
theorem markRefusal?_eq_of_agree {t : MarkedTree} (h : table.AgreeIn other t) :
    table.markRefusal? t = other.markRefusal? t := by
  induction t using Tree.induction with
  | node info children ih =>
    have hrow : table.rowRefusal? children = other.rowRefusal? children :=
      rowRefusal?_eq_of_agree fun child hchild => (h.child hchild).root
    have hrefusals : ∀ ts ⊆ children, table.markRefusals? ts = other.markRefusals? ts := by
      intro ts hts
      induction ts with
      | nil => rfl
      | cons t ts ihts =>
        obtain ⟨ht, hts⟩ := List.cons_subset.1 hts
        rw [markRefusals?, markRefusals?, ihts hts, ih t ht (h.child ht)]
    rw [markRefusal?, markRefusal?, hrefusals children (List.Subset.refl _), hrow]

/-- Tables that agree on a kind without a category hold the same nodes for
containers. -/
theorem isContainer_eq_of_agree {info : MarkedInfo} (h : table.Agree other info.kind)
    (hcategory : table.category? info.kind = none) :
    table.isContainer info = other.isContainer info := by
  rw [isContainer, isContainer, h.container hcategory]

end KindTable

/-! ### Searches -/

namespace MarkedTree

variable {table other : KindTable} {t : MarkedTree}

/-- Tables that agree in the trees of a stack look at the same nodes. -/
theorem lookedAt_eq_of_agree {stack : List MarkedTree}
    (h : ∀ t ∈ stack, table.AgreeIn other t) : lookedAt table stack = lookedAt other stack := by
  fun_induction lookedAt table stack with
  | case1 => rw [lookedAt]
  | case2 t stack inside ih =>
    obtain ⟨ht, hstack⟩ := List.forall_mem_cons.1 h
    have hinside : inside =
        if other.has .armContainers t.label.kind then t.children else [] := by
      simp only [inside, ht.root.role .armContainers rfl]
      rfl
    rw [lookedAt, ← hinside, ih]
    -- Only what a container of arms holds is looked at next.
    refine List.forall_mem_append.2 ⟨fun s hs => ht.child ?_, hstack⟩
    simp only [inside] at hs
    split at hs
    · exact hs
    · cases hs

section

variable (h : table.AgreeIn other t)

include h

/-- Tables that agree in a tree find the same child for a role. -/
theorem child?_eq_of_agree {role : Role} (hrole : KindTable.isLookedFor role = true) :
    t.child? table role = t.child? other role := by
  refine List.find?_congr fun child hchild => ?_
  have hmem : child ∈ t.children := (List.takeWhile_prefix _).subset hchild
  exact (h.child hmem).root.role role hrole

/-- Tables that agree in a tree are refused the same kind when they search for a
child. -/
theorem childRefusal?_eq_of_agree {role : Role} (hrole : KindTable.isLookedFor role = true) :
    t.childRefusal? table role = t.childRefusal? other role := by
  rw [childRefusal?, childRefusal?, child?_eq_of_agree h hrole]

/-- Tables that agree in a tree find the same condition. -/
theorem condition?_eq_of_agree : t.condition? table = t.condition? other := by
  rw [condition?, condition?, child?_eq_of_agree h rfl]

/-- Tables that agree in a tree find the same name. -/
theorem name?_eq_of_agree : t.name? table = t.name? other := by
  rw [name?, name?, child?_eq_of_agree h rfl, child?_eq_of_agree h rfl]

/-- Tables that agree in a tree are refused the same kind when they search for
arms. -/
theorem armRefusal?_eq_of_agree : t.armRefusal? table = t.armRefusal? other := by
  rw [armRefusal?, armRefusal?, lookedAt_eq_of_agree fun child hchild => h.child hchild]

/-- Tables that agree in a tree find the same arms. -/
theorem arms_eq_of_agree : t.arms table = t.arms other := by
  rw [arms, arms, ← lookedAt_eq_of_agree fun child hchild => h.child hchild]
  refine List.filter_congr fun arm harm => ?_
  obtain ⟨child, hchild, hs⟩ := mem_allSubtrees.1 (mem_subtrees_of_mem_lookedAt harm)
  exact (h.child hchild arm hs).role .arms rfl

end

end MarkedTree

/-! ### Drafts -/

namespace Draft

open MarkedTree KindTable

variable {table other : KindTable} {r : Request}

namespace Request

variable (h : table.AgreeIn other r.tree)

include h

/-- What a node is taken apart into. -/
theorem parts_eq_of_agree : r.parts table = r.parts other := by
  unfold parts
  cases r.mode with
  | chain => rfl
  | visit =>
    simp only [← h.root.category]
    cases hcategory : table.category? r.tree.label.kind with
    | none => simp only [isContainer_eq_of_agree h.root hcategory]
    | some category =>
      cases category with
      | branch => simp (disch := decide) only [child?_eq_of_agree h]
      | loop => simp (disch := decide) only [child?_eq_of_agree h]
      | choice => simp only [armParts, arms_eq_of_agree h]
      | terminator => rfl
      | function => simp (disch := decide) only [child?_eq_of_agree h]

/-- What is opened for a node. -/
theorem start_eq_of_agree : r.start table = r.start other := by
  unfold start
  cases r.mode with
  | chain => rfl
  | visit =>
    simp only [← h.root.category]
    -- The category decides which searches are made before the first part is served.
    cases hcategory : table.category? r.tree.label.kind with
    | none =>
      have hcomment : table.isComment r.tree.label.kind = other.isComment r.tree.label.kind :=
        h.root.role .comments rfl
      simp only [isContainer_eq_of_agree h.root hcategory, hcomment]
    | some category =>
      cases category with
      | branch =>
        simp (disch := decide) only [condition?_eq_of_agree h, child?_eq_of_agree h,
          childRefusal?_eq_of_agree h]
      | loop =>
        simp (disch := decide) only [condition?_eq_of_agree h, childRefusal?_eq_of_agree h]
      | choice => simp only [armRefusal?_eq_of_agree h]
      | terminator => rfl
      | function => simp (disch := decide) only [name?_eq_of_agree h, childRefusal?_eq_of_agree h]

end Request

/-- Parts that are served in the same way by two tables make the same of a
construct. -/
theorem serveParts_congr {parts : List (Part × Request)}
    (h : ∀ p ∈ parts, serve table p.2 = serve other p.2) (construct : Construct) :
    serveParts table parts construct = serveParts other parts construct := by
  induction parts generalizing construct with
  | nil => rfl
  | cons p parts ih =>
    obtain ⟨hp, hparts⟩ := List.forall_mem_cons.1 h
    simp only [serveParts_cons, hp, ih hparts]

/-- What is drafted of a node. -/
theorem serve_eq_of_agree (r : Request) (h : table.AgreeIn other r.tree) :
    serve table r = serve other r := by
  have hparts : ∀ p ∈ r.parts table, serve table p.2 = serve other p.2 := fun p hp =>
    serve_eq_of_agree p.2 (h.subtree (Request.mem_subtrees_of_mem_parts hp))
  rw [serve_eq, serve_eq, ← Request.start_eq_of_agree h, ← Request.parts_eq_of_agree h]
  simp only [serveParts_congr hparts]
termination_by r.tree.size
decreasing_by exact Request.parts_size_lt hp

/-- What is drafted of a tree. -/
theorem draft_eq_of_agree {tree : MarkedTree} (h : table.AgreeIn other tree) :
    draft table tree = draft other tree := by
  have hroot : rootRequest table tree = rootRequest other tree := by
    rw [rootRequest, rootRequest, h.root.isStructural]
  have hserved : served table tree = served other tree := by
    rw [served, served, hroot, serve_eq_of_agree (rootRequest other tree) h]
  rw [draft_eq, draft_eq, hroot, hserved]

end Draft

end Flowchart
