import Flowchart.Kinds.Marks

/-!
# `Flowchart.Draft.Lookup`: the parts of a construct

Where a construct keeps its condition, its body, its name and its arms. Arms
may sit inside wrappers, so they are collected with a stack of nodes to look
at; a node can be an arm and a wrapper at once.

- `size_lt_of_find`, `size_lt_of_mem_arms`: what is found is smaller than
  the construct.
-/

set_option autoImplicit false

namespace Flowchart.MarkedTree

/-- The first kind in a row of nodes that cannot be looked up. -/
def firstRefused? (ts : List MarkedTree) : Option Json :=
  (ts.find? fun t => !t.label.kind.isKey).map kind

/-- The first child whose kind plays a role. The search ends at a kind that
cannot be looked up. -/
def child? (table : KindTable) (role : Role) (t : MarkedTree) : Option MarkedTree :=
  (t.children.takeWhile fun child => child.label.kind.isKey).find? fun child =>
    table.has role child.label.kind

/-- The kind that ends the search for a child, if one does. -/
def childRefusal? (table : KindTable) (role : Role) (t : MarkedTree) : Option Json :=
  if (t.child? table role).isSome then none else firstRefused? t.children

/-- The condition of a branch or loop: the first child of such a kind, or
else the second named child. -/
def condition? (table : KindTable) (t : MarkedTree) : Option MarkedTree :=
  (t.child? table .conditions).or t.namedChildren[1]?

/-- The name of a function. -/
def name? (table : KindTable) (t : MarkedTree) : Option MarkedTree :=
  (t.child? table .names).or (t.child? table .fallbackNames)

/-- The nodes of a stack and those inside the wrappers among them, each
wrapper in front of what it holds. -/
def lookedAt (table : KindTable) : List MarkedTree → List MarkedTree
  | [] => []
  | t :: stack =>
    -- What is in a container of arms is looked at before what is beside it.
    let inside := if table.has .armContainers t.label.kind then t.children else []
    t :: lookedAt table (inside ++ stack)
termination_by stack => Tree.sizes stack
decreasing_by
  have h := Tree.sizes_append inside stack
  have hin : Tree.sizes inside ≤ Tree.sizes t.children := by
    simp only [inside]
    split
    · exact Nat.le_refl _
    · simp [Tree.sizes]
  rw [h, Tree.sizes, Tree.size_eq t]
  omega

/-- The arms of a choice, in source order. -/
def arms (table : KindTable) (t : MarkedTree) : List MarkedTree :=
  (lookedAt table t.children).filter fun arm => table.has .arms arm.label.kind

/-- The first kind that cannot be looked up in the search for arms. -/
def armRefusal? (table : KindTable) (t : MarkedTree) : Option Json :=
  firstRefused? (lookedAt table t.children)

/-- A child that is found has fewer nodes than its parent. -/
theorem size_lt_of_find {table : KindTable} {role : Role} {t s : MarkedTree}
    (h : t.child? table role = some s) : s.size < t.size :=
  Tree.size_lt_of_mem ((List.takeWhile_prefix _).subset (List.mem_of_find?_eq_some h))

/-- What is looked at has no more nodes than the trees it is in. -/
theorem size_le_of_mem_lookedAt {table : KindTable} {stack : List MarkedTree} {n : Nat}
    {s : MarkedTree} (hn : ∀ t ∈ stack, t.size ≤ n) (h : s ∈ lookedAt table stack) :
    s.size ≤ n := by
  fun_induction lookedAt table stack with
  | case1 => cases h
  | case2 t stack inside ih =>
    rcases List.mem_cons.1 h with rfl | h
    · exact hn s List.mem_cons_self
    · refine ih (fun u hu => ?_) h
      rcases List.mem_append.1 hu with hu | hu
      · simp only [inside] at hu
        split at hu
        · have := Tree.size_lt_of_mem hu
          have := hn t List.mem_cons_self
          omega
        · cases hu
      · exact hn u (List.mem_cons_of_mem t hu)

/-- An arm has fewer nodes than its choice. -/
theorem size_lt_of_mem_arms {table : KindTable} {t s : MarkedTree} (h : s ∈ t.arms table) :
    s.size < t.size := by
  have hle : s.size ≤ Tree.sizes t.children :=
    size_le_of_mem_lookedAt (fun u hu => Tree.size_le_sizes hu) (List.mem_filter.1 h).1
  rw [Tree.size_eq t]
  omega

/-- Where every kind can be looked up, a search for a child ends at none. -/
theorem childRefusal?_eq_none {table : KindTable} {role : Role} {t : MarkedTree}
    (h : ∀ child ∈ t.children, child.label.kind.isKey = true) :
    t.childRefusal? table role = none := by
  have hfind : t.children.find? (fun t => !t.label.kind.isKey) = none := by
    simpa using h
  simp [childRefusal?, firstRefused?, hfind]

end Flowchart.MarkedTree
