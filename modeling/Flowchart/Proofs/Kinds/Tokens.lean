import Mathlib.Data.List.TakeWhile
import Flowchart.Proofs.Draft.Faultless
import Flowchart.Proofs.Syntax.Without

/-!
# `Flowchart.Proofs.Kinds.Tokens`: trees without their tokens

Tokens are the nodes that are not named: punctuation and keywords. A tree
without its tokens has lost them and all that is below them. Rows of
statements pass over tokens, but the searches for a condition, a body, a name
or an arm look at all children, and a token that shows structure makes its
parent hold some. So a token can be taken for a part of a construct.

Where that does not happen, each search finds the same with the tokens and
without them.

* `withoutTokens`: a tree without its tokens;
* `Clear`: no token is found where a construct looks for its parts, and none
  alone makes a node hold structure;
* `FindsArms`: arms that are found with the tokens and without them;
* `exists_child?`, `exists_arms`: what is found in a clear node;
* `isContainer_markNamed`: what holds structure still does;
* `clear_of_unlisted`: tokens that play no role make no difference.
-/

set_option autoImplicit false

namespace Flowchart

namespace SyntaxTree

mutual

/-- A tree without its tokens. The root stays. -/
def withoutTokens : SyntaxTree → SyntaxTree
  | .node info children => .node info (withoutTokensAll children)

/-- A row of trees without their tokens. -/
def withoutTokensAll : List SyntaxTree → List SyntaxTree
  | [] => []
  | t :: ts =>
    if t.isNamed then withoutTokens t :: withoutTokensAll ts else withoutTokensAll ts

end

mutual

/-- The nodes of a tree that are not below a token, the root first. -/
def namedSubtrees : SyntaxTree → List SyntaxTree
  | .node info children => .node info children :: namedSubtreesAll children

/-- The nodes of a row of trees that are neither tokens nor below one. -/
def namedSubtreesAll : List SyntaxTree → List SyntaxTree
  | [] => []
  | t :: ts => (if t.isNamed then namedSubtrees t else []) ++ namedSubtreesAll ts

end

variable {s t u : SyntaxTree}

mutual

/-- To leave the tokens out is to leave out all nodes that are not named. -/
theorem withoutTokens_eq (t : SyntaxTree) : t.withoutTokens = t.without fun s => !isNamed s := by
  match t with
  | .node info children => rw [withoutTokens, Tree.without, withoutTokensAll_eq children]

/-- The same of a row of trees. -/
theorem withoutTokensAll_eq (ts : List SyntaxTree) :
    withoutTokensAll ts = Tree.withoutAll (fun s => !isNamed s) ts := by
  match ts with
  | [] => rfl
  | t :: ts =>
    rw [withoutTokensAll, Tree.withoutAll, withoutTokens_eq t, withoutTokensAll_eq ts]
    cases t.isNamed <;> rfl

end

/-- The root keeps its label. -/
@[simp]
theorem label_withoutTokens (t : SyntaxTree) : t.withoutTokens.label = t.label := by
  rw [withoutTokens_eq, Tree.label_without]

/-- The root is named as before. -/
@[simp]
theorem isNamed_withoutTokens (t : SyntaxTree) : t.withoutTokens.isNamed = t.isNamed := by
  rw [isNamed, label_withoutTokens, isNamed]

/-- The children that are left are the named ones, each without its tokens. -/
@[simp]
theorem children_withoutTokens (t : SyntaxTree) :
    t.withoutTokens.children = t.namedChildren.map withoutTokens := by
  simp only [Tree.children_without, Bool.not_not, namedChildren, funext withoutTokens_eq]

/-- All children that are left are named. -/
@[simp]
theorem namedChildren_withoutTokens (t : SyntaxTree) :
    t.withoutTokens.namedChildren = t.namedChildren.map withoutTokens := by
  rw [namedChildren, children_withoutTokens, List.filter_map]
  congr 1
  rw [List.filter_eq_self]
  intro s hs
  simpa using (List.mem_filter.1 hs).2

/-- The named children are the children that are named. -/
theorem mem_namedChildren : s ∈ t.namedChildren ↔ s ∈ t.children ∧ s.isNamed = true :=
  List.mem_filter

/-- What is reached in a row without passing a token is reached so in one of its
named trees. -/
theorem mem_namedSubtreesAll {ts : List SyntaxTree} :
    s ∈ namedSubtreesAll ts ↔ ∃ t ∈ ts, t.isNamed = true ∧ s ∈ t.namedSubtrees := by
  induction ts with
  | nil => simp [namedSubtreesAll]
  | cons t ts ih =>
    rw [namedSubtreesAll, List.mem_append, ih]
    cases h : t.isNamed <;> simp [h]

/-- The root is reached without passing a token. -/
theorem mem_namedSubtrees_self (t : SyntaxTree) : t ∈ t.namedSubtrees := by
  cases t
  exact List.mem_cons_self

/-- What a named child reaches without passing a token, its parent does. -/
theorem mem_namedSubtrees_of_mem_namedChildren (h : s ∈ t.namedChildren)
    (hu : u ∈ s.namedSubtrees) : u ∈ t.namedSubtrees := by
  cases t
  obtain ⟨hchild, hnamed⟩ := mem_namedChildren.1 h
  exact List.mem_cons_of_mem _ (mem_namedSubtreesAll.2 ⟨s, hchild, hnamed, hu⟩)

/-- What is reached so from what is reached so is reached so itself. -/
theorem mem_namedSubtrees_trans (h : s ∈ t.namedSubtrees) (hu : u ∈ s.namedSubtrees) :
    u ∈ t.namedSubtrees := by
  induction t using Tree.induction with
  | node info children ih =>
    rcases List.mem_cons.1 h with rfl | h
    · exact hu
    · obtain ⟨child, hchild, hnamed, h⟩ := mem_namedSubtreesAll.1 h
      exact mem_namedSubtrees_of_mem_namedChildren (mem_namedChildren.2 ⟨hchild, hnamed⟩)
        (ih child hchild h)

/-- What is reached without passing a token is a node of the tree. -/
theorem mem_subtrees_of_mem_namedSubtrees (h : s ∈ t.namedSubtrees) : s ∈ t.subtrees := by
  induction t using Tree.induction with
  | node info children ih =>
    rcases List.mem_cons.1 h with rfl | h
    · exact Tree.mem_subtrees_self _
    · obtain ⟨child, hchild, _, h⟩ := mem_namedSubtreesAll.1 h
      exact Tree.mem_subtrees_of_mem_children hchild (ih child hchild h)

/-- What is left without tokens says what it said. -/
theorem exists_of_mem_subtrees_withoutTokens (h : s ∈ t.withoutTokens.subtrees) :
    ∃ u ∈ t.subtrees, u.label = s.label := by
  rw [withoutTokens_eq] at h
  exact Tree.exists_of_mem_subtrees_without h

/-- Where all kinds are names, those of the tree without its tokens are. -/
theorem KindsNamed.withoutTokens (h : t.KindsNamed) : t.withoutTokens.KindsNamed := by
  intro s hs
  obtain ⟨u, hu, hlabel⟩ := exists_of_mem_subtrees_withoutTokens hs
  rw [← hlabel]
  exact h u hu

/-- Where all kinds are names, those below any node are. -/
theorem KindsNamed.of_mem_namedSubtrees (h : t.KindsNamed) (hs : s ∈ t.namedSubtrees) :
    s.KindsNamed :=
  fun u hu => h u (Tree.mem_subtrees_trans (mem_subtrees_of_mem_namedSubtrees hs) hu)

end SyntaxTree

/-! ### Clear nodes -/

namespace MarkedTree

/-- What a construct finds when it looks for its parts. The wrappers that arms
may be in are looked into. -/
def found (table : KindTable) (t : MarkedTree) : List MarkedTree :=
  match table.category? t.label.kind with
  | some .branch =>
    (t.condition? table).toList ++ (t.child? table .bodies).toList ++
      (t.child? table .alternatives).toList
  | some .loop => (t.condition? table).toList ++ (t.child? table .bodies).toList
  | some .choice =>
    (lookedAt table t.children).filter fun s =>
      table.has .arms s.label.kind || table.has .armContainers s.label.kind
  | some .terminator => []
  | some .function => (t.name? table).toList ++ (t.child? table .bodies).toList
  | none => []

/-- A construct finds no token when it looks for its parts, and a node that is
none holds no structure in its tokens alone. -/
structure Clear (table : KindTable) (t : MarkedTree) : Prop where
  named : ∀ s ∈ t.found table, s.isNamed = true
  structured : table.category? t.label.kind = none → t.children.any table.showsStructure = true →
    t.namedChildren.any table.showsStructure = true

namespace Clear

variable {table : KindTable} {t : MarkedTree}

/-- What a clear branch looks for are no tokens: its condition and its two
parts. -/
theorem of_branch (h : t.Clear table) (hcategory : table.category? t.label.kind = some .branch) :
    (∀ s ∈ t.condition? table, s.isNamed = true) ∧
      (∀ s ∈ t.child? table .bodies, s.isNamed = true) ∧
      ∀ s ∈ t.child? table .alternatives, s.isNamed = true := by
  have hnamed := h.named
  simp only [found, hcategory, List.mem_append, Option.mem_toList] at hnamed
  exact ⟨fun s hs => hnamed s (.inl (.inl hs)), fun s hs => hnamed s (.inl (.inr hs)),
    fun s hs => hnamed s (.inr hs)⟩

/-- What a clear loop looks for are no tokens: its condition and its body. -/
theorem of_loop (h : t.Clear table) (hcategory : table.category? t.label.kind = some .loop) :
    (∀ s ∈ t.condition? table, s.isNamed = true) ∧
      ∀ s ∈ t.child? table .bodies, s.isNamed = true := by
  have hnamed := h.named
  simp only [found, hcategory, List.mem_append, Option.mem_toList] at hnamed
  exact ⟨fun s hs => hnamed s (.inl hs), fun s hs => hnamed s (.inr hs)⟩

/-- What a clear function looks for are no tokens: its name and its body. -/
theorem of_function (h : t.Clear table)
    (hcategory : table.category? t.label.kind = some .function) :
    (∀ s ∈ t.name? table, s.isNamed = true) ∧
      ∀ s ∈ t.child? table .bodies, s.isNamed = true := by
  have hnamed := h.named
  simp only [found, hcategory, List.mem_append, Option.mem_toList] at hnamed
  exact ⟨fun s hs => hnamed s (.inl hs), fun s hs => hnamed s (.inr hs)⟩

end Clear

instance (table : KindTable) (t : MarkedTree) : Decidable (t.Clear table) :=
  decidable_of_iff
    ((∀ s ∈ t.found table, s.isNamed = true) ∧
      (table.category? t.label.kind = none → t.children.any table.showsStructure = true →
        t.namedChildren.any table.showsStructure = true))
    ⟨fun h => ⟨h.1, h.2⟩, fun h => ⟨h.named, h.structured⟩⟩

end MarkedTree

open MarkedTree

section

variable {table : KindTable}

/-- A tree whose tokens have been dropped, marked. -/
def KindTable.markNamed (table : KindTable) (t : SyntaxTree) : MarkedTree :=
  table.mark t.withoutTokens

/-- What a node says besides its mark stays when the tokens are dropped. -/
theorem KindTable.info_markNamed (table : KindTable) (t : SyntaxTree) :
    (table.markNamed t).label.toNodeInfo = (table.mark t).label.toNodeInfo := by
  rw [markNamed, mark_label, mark_label, SyntaxTree.label_withoutTokens]

/-- The kind of a node stays when the tokens are dropped. -/
theorem KindTable.kind_markNamed (table : KindTable) (t : SyntaxTree) :
    (table.markNamed t).label.kind = (table.mark t).label.kind :=
  congrArg NodeInfo.kind (table.info_markNamed t)

/-- The children in a marked tree without tokens are the named ones. -/
theorem KindTable.children_markNamed (table : KindTable) (t : SyntaxTree) :
    (table.markNamed t).children = t.namedChildren.map table.markNamed := by
  rw [markNamed, children_mark, SyntaxTree.children_withoutTokens, List.map_map]
  rfl

/-- All children in a marked tree without tokens are named. -/
theorem KindTable.namedChildren_markNamed (table : KindTable) (t : SyntaxTree) :
    (table.markNamed t).namedChildren = t.namedChildren.map table.markNamed := by
  rw [markNamed, namedChildren_mark, SyntaxTree.namedChildren_withoutTokens, List.map_map]
  rfl

/-! ### Searches for a child -/

/-- Where every kind is a text, a search for a child goes through all
children. -/
theorem MarkedTree.child?_eq_find? {t : MarkedTree} (h : t.KindsNamed) (role : Role) :
    t.child? table role = t.children.find? fun child => table.has role child.label.kind := by
  rw [child?, List.takeWhile_eq_self_iff.2 fun s hs => h.isKey_of_mem_children hs]

/-- Where no token is found, the same child is found with the tokens and
without them. -/
theorem exists_child? {t : SyntaxTree} (ht : t.KindsNamed) {role : Role}
    (h : ∀ s ∈ (table.mark t).child? table role, s.isNamed = true) :
    ∃ child? : Option SyntaxTree, (∀ s ∈ child?, s ∈ t.namedChildren) ∧
      (table.mark t).child? table role = child?.map table.mark ∧
      (table.markNamed t).child? table role = child?.map table.markNamed := by
  rw [child?_eq_find? ht.mark, KindTable.children_mark, List.find?_map] at h ⊢
  rw [KindTable.markNamed, child?_eq_find? ht.withoutTokens.mark, ← KindTable.markNamed,
    KindTable.children_markNamed, List.find?_map]
  -- A search looks at kinds only, and no kind changes when the tokens below it are dropped.
  have hsame : ((fun s : MarkedTree => table.has role s.label.kind) ∘ table.markNamed) =
      (fun s : MarkedTree => table.has role s.label.kind) ∘ table.mark := by
    funext s
    simp only [Function.comp_apply, KindTable.kind_markNamed]
  have hfound : ∀ s ∈ t.children.find?
      ((fun s : MarkedTree => table.has role s.label.kind) ∘ table.mark), s.isNamed = true := by
    intro s hs
    rw [← table.isNamed_mark s]
    exact h _ (Option.mem_map_of_mem table.mark hs)
  rw [hsame, SyntaxTree.namedChildren, find?_filter_of_found hfound]
  refine ⟨_, fun s hs => ?_, rfl, rfl⟩
  exact SyntaxTree.mem_namedChildren.2 ⟨List.mem_of_find?_eq_some hs, hfound s hs⟩

/-! ### Searches for arms -/

/-- What is looked at inside a node. -/
def insideWrapper (table : KindTable) (t : SyntaxTree) : List SyntaxTree :=
  if table.has .armContainers t.label.kind then t.children else []

/-- The search looks at the first tree, and then inside it if it is a wrapper.
-/
theorem lookedAt_mark_cons (t : SyntaxTree) (stack : List SyntaxTree) :
    lookedAt table ((t :: stack).map table.mark) =
      table.mark t :: lookedAt table ((insideWrapper table t ++ stack).map table.mark) := by
  rw [List.map_cons, lookedAt, List.map_append, insideWrapper, KindTable.kind_mark,
    KindTable.children_mark]
  split <;> rfl

/-- Without the tokens, the search looks at the same named tree and goes on in
the same way. -/
theorem lookedAt_markNamed_cons {t : SyntaxTree} (ht : t.isNamed = true)
    (stack : List SyntaxTree) :
    lookedAt table (((t :: stack).filter SyntaxTree.isNamed).map table.markNamed) =
      table.markNamed t ::
        lookedAt table
          (((insideWrapper table t ++ stack).filter SyntaxTree.isNamed).map table.markNamed) := by
  rw [List.filter_cons_of_pos ht, List.map_cons, lookedAt, List.filter_append, List.map_append,
    insideWrapper, KindTable.kind_markNamed, KindTable.kind_mark, KindTable.children_markNamed]
  split <;> rfl

/-- Going inside a wrapper leaves less to look at. -/
theorem sizes_insideWrapper_lt (table : KindTable) (t : SyntaxTree) (stack : List SyntaxTree) :
    Tree.sizes (insideWrapper table t ++ stack) < Tree.sizes (t :: stack) := by
  rw [Tree.sizes_append, Tree.sizes, Tree.size_eq]
  unfold insideWrapper
  split
  · omega
  · simp only [Tree.sizes]
    omega

/-- What is not below a token inside a node or behind it is not below one. -/
theorem mem_namedSubtreesAll_of_insideWrapper {t s : SyntaxTree} (ht : t.isNamed = true)
    {stack : List SyntaxTree}
    (h : s ∈ SyntaxTree.namedSubtreesAll (insideWrapper table t ++ stack)) :
    s ∈ SyntaxTree.namedSubtreesAll (t :: stack) := by
  obtain ⟨root, hroot, hnamed, hs⟩ := SyntaxTree.mem_namedSubtreesAll.1 h
  rw [SyntaxTree.mem_namedSubtreesAll]
  rcases List.mem_append.1 hroot with hroot | hroot
  · have hchild : root ∈ t.children := by
      unfold insideWrapper at hroot
      split at hroot
      · exact hroot
      · cases hroot
    exact ⟨t, List.mem_cons_self, ht, SyntaxTree.mem_namedSubtrees_of_mem_namedChildren
      (SyntaxTree.mem_namedChildren.2 ⟨hchild, hnamed⟩) hs⟩
  · exact ⟨root, List.mem_cons_of_mem t hroot, hnamed, hs⟩

/-- The same arms are found on a stack of nodes with their tokens and without them. -/
structure FindsArms (table : KindTable) (stack arms : List SyntaxTree) : Prop where
  inside : ∀ arm ∈ arms, arm ∈ SyntaxTree.namedSubtreesAll stack
  mark : (lookedAt table (stack.map table.mark)).filter
    (fun s => table.has .arms s.label.kind) = arms.map table.mark
  markNamed : (lookedAt table ((stack.filter SyntaxTree.isNamed).map table.markNamed)).filter
    (fun s => table.has .arms s.label.kind) = arms.map table.markNamed

namespace FindsArms

variable {t : SyntaxTree} {rest arms : List SyntaxTree}

/-- On an empty stack there is nothing to find. -/
theorem nil : FindsArms table [] [] :=
  ⟨nofun, by simp [lookedAt], by simp [lookedAt]⟩

/-- A node that is an arm is found before the arms inside it. -/
theorem arm (ht : t.isNamed = true) (harm : table.has .arms t.label.kind = true)
    (h : FindsArms table (insideWrapper table t ++ rest) arms) :
    FindsArms table (t :: rest) (t :: arms) := by
  refine ⟨List.forall_mem_cons.2 ⟨?_, fun arm harm => ?_⟩, ?_, ?_⟩
  · exact SyntaxTree.mem_namedSubtreesAll.2
      ⟨t, List.mem_cons_self, ht, SyntaxTree.mem_namedSubtrees_self t⟩
  · exact mem_namedSubtreesAll_of_insideWrapper ht (h.inside arm harm)
  · rw [lookedAt_mark_cons, List.filter_cons_of_pos (by rw [KindTable.kind_mark, harm]), h.mark,
      List.map_cons]
  · rw [lookedAt_markNamed_cons ht, List.filter_cons_of_pos
      (by rw [KindTable.kind_markNamed, KindTable.kind_mark, harm]), h.markNamed, List.map_cons]

/-- Of a node that is no arm, only what is inside it counts. -/
theorem other (ht : t.isNamed = true) (harm : table.has .arms t.label.kind = false)
    (h : FindsArms table (insideWrapper table t ++ rest) arms) :
    FindsArms table (t :: rest) arms := by
  refine ⟨fun arm harm => ?_, ?_, ?_⟩
  · exact mem_namedSubtreesAll_of_insideWrapper ht (h.inside arm harm)
  · rw [lookedAt_mark_cons, List.filter_cons_of_neg (by simp [KindTable.kind_mark, harm]), h.mark]
  · rw [lookedAt_markNamed_cons ht, List.filter_cons_of_neg
      (by simp [KindTable.kind_markNamed, KindTable.kind_mark, harm]), h.markNamed]

/-- A token that is neither an arm nor a wrapper is passed over, and nothing inside it is
looked at. -/
theorem token (ht : t.isNamed = false) (harm : table.has .arms t.label.kind = false)
    (hinside : insideWrapper table t = []) (h : FindsArms table rest arms) :
    FindsArms table (t :: rest) arms := by
  refine ⟨fun arm harm => ?_, ?_, ?_⟩
  · obtain ⟨root, hroot, hrest⟩ := SyntaxTree.mem_namedSubtreesAll.1 (h.inside arm harm)
    exact SyntaxTree.mem_namedSubtreesAll.2 ⟨root, List.mem_cons_of_mem t hroot, hrest⟩
  · rw [lookedAt_mark_cons, hinside, List.nil_append,
      List.filter_cons_of_neg (by simp [KindTable.kind_mark, harm]), h.mark]
  · rw [List.filter_cons_of_neg (by simp [ht]), h.markNamed]

end FindsArms

/-- Where no token is an arm or a wrapper, the same arms are found with the
tokens and without them. -/
theorem exists_findsArms (stack : List SyntaxTree)
    (h : ∀ s ∈ lookedAt table (stack.map table.mark),
      (table.has .arms s.label.kind || table.has .armContainers s.label.kind) = true →
        s.isNamed = true) :
    ∃ arms, FindsArms table stack arms := by
  match stack with
  | [] => exact ⟨[], .nil⟩
  | t :: rest =>
    rw [lookedAt_mark_cons] at h
    have hless := sizes_insideWrapper_lt table t rest
    obtain ⟨arms, hfinds⟩ := exists_findsArms (insideWrapper table t ++ rest) fun s hs =>
      h s (List.mem_cons_of_mem _ hs)
    have hself := h _ List.mem_cons_self
    rw [KindTable.kind_mark, KindTable.isNamed_mark] at hself
    cases ht : t.isNamed with
    | true =>
      cases harm : table.has .arms t.label.kind with
      | true => exact ⟨t :: arms, hfinds.arm ht harm⟩
      | false => exact ⟨arms, hfinds.other ht harm⟩
    | false =>
      rw [ht] at hself
      obtain ⟨harm, hwrapper⟩ := Bool.or_eq_false_iff.1 (Bool.eq_false_iff.2 fun h => by
        cases hself h)
      -- A token that was found would be named, so it is neither an arm nor a wrapper.
      have hinside : insideWrapper table t = [] := by
        rw [insideWrapper, hwrapper]
        rfl
      rw [hinside, List.nil_append] at hfinds
      exact ⟨arms, hfinds.token ht harm hinside⟩
termination_by Tree.sizes stack

/-- In a clear choice, the same arms are found with the tokens and without
them. -/
theorem exists_arms {t : SyntaxTree} (hclear : (table.mark t).Clear table)
    (hcategory : table.category? t.label.kind = some .choice) :
    ∃ arms : List SyntaxTree,
      (∀ arm ∈ arms, arm ∈ t.namedSubtrees) ∧
      (table.mark t).arms table = arms.map table.mark ∧
      (table.markNamed t).arms table = arms.map table.markNamed := by
  -- A clear choice finds no token among its arms, nor one that it looks into for them.
  have hnamed : ∀ s ∈ lookedAt table (t.children.map table.mark),
      (table.has .arms s.label.kind || table.has .armContainers s.label.kind) = true →
        s.isNamed = true := by
    intro s hs hfound
    refine hclear.named s ?_
    rw [found, KindTable.kind_mark, hcategory, KindTable.children_mark]
    exact List.mem_filter.2 ⟨hs, hfound⟩
  obtain ⟨arms, hfinds⟩ := exists_findsArms t.children hnamed
  refine ⟨arms, fun arm harm => ?_, ?_, ?_⟩
  · obtain ⟨child, hchild, hchildNamed, hinside⟩ :=
      SyntaxTree.mem_namedSubtreesAll.1 (hfinds.inside arm harm)
    exact SyntaxTree.mem_namedSubtrees_of_mem_namedChildren
      (SyntaxTree.mem_namedChildren.2 ⟨hchild, hchildNamed⟩) hinside
  · rw [MarkedTree.arms, KindTable.children_mark, hfinds.mark]
  · rw [MarkedTree.arms, KindTable.children_markNamed, SyntaxTree.namedChildren, hfinds.markNamed]

/-! ### What holds structure -/

/-- Every node that is not below a token is clear. -/
def SyntaxTree.Clear (table : KindTable) (t : SyntaxTree) : Prop :=
  ∀ s ∈ t.namedSubtrees, (table.mark s).Clear table

instance (table : KindTable) (t : SyntaxTree) : Decidable (t.Clear table) :=
  inferInstanceAs (Decidable (∀ s ∈ t.namedSubtrees, (table.mark s).Clear table))

/-- What is reached in a clear tree without passing a token is clear itself. -/
theorem SyntaxTree.Clear.of_mem {t s : SyntaxTree} (h : t.Clear table)
    (hs : s ∈ t.namedSubtrees) : s.Clear table :=
  fun u hu => h u (mem_namedSubtrees_trans hs hu)

/-- The root of a clear tree is a clear node. -/
theorem SyntaxTree.Clear.self {t : SyntaxTree} (h : t.Clear table) : (table.mark t).Clear table :=
  h t (mem_namedSubtrees_self t)

/-- A clear node that is no construct holds the same structure with its
tokens and without them. -/
theorem structural_markNamed {t : SyntaxTree} (h : t.Clear table)
    (hcategory : table.category? t.label.kind = none) :
    (table.markNamed t).label.structural = (table.mark t).label.structural := by
  have hshows : ∀ s ∈ t.namedChildren,
      table.showsStructure (table.markNamed s) = table.showsStructure (table.mark s) := by
    intro s hs
    unfold KindTable.showsStructure MarkedTree.kind
    rw [KindTable.kind_markNamed, KindTable.kind_mark]
    cases hchild : table.category? s.label.kind with
    -- A construct shows structure whatever is inside it.
    | some category => simp [KindTable.isStructural, hchild]
    | none =>
      have hclear := h.of_mem (SyntaxTree.mem_namedSubtrees_of_mem_namedChildren hs
        (SyntaxTree.mem_namedSubtrees_self s))
      rw [structural_markNamed hclear hchild]
  have hnamed : (table.mark t).namedChildren.any table.showsStructure =
      (table.mark t).children.any table.showsStructure := by
    rw [Bool.eq_iff_iff]
    refine ⟨fun hany => ?_, h.self.structured (by rwa [KindTable.kind_mark])⟩
    obtain ⟨s, hs, hshow⟩ := List.any_eq_true.1 hany
    exact List.any_eq_true.2 ⟨s, (List.mem_filter.1 hs).1, hshow⟩
  rw [KindTable.structural_mark, ← hnamed, KindTable.namedChildren_mark, KindTable.markNamed,
    KindTable.structural_mark, ← KindTable.markNamed, KindTable.children_markNamed, List.any_map,
    List.any_map, Bool.eq_iff_iff, List.any_eq_true, List.any_eq_true]
  refine exists_congr fun s => and_congr_right fun hs => ?_
  rw [Function.comp_apply, Function.comp_apply, hshows s hs]
termination_by t.size
decreasing_by exact Tree.size_lt_of_mem (SyntaxTree.mem_namedChildren.1 hs).1

/-- The children of a clear node are chained with its tokens where they are
without them. -/
theorem isContainer_markNamed {t : SyntaxTree} (h : t.Clear table)
    (hcategory : table.category? t.label.kind = none) :
    table.isContainer (table.markNamed t).label = table.isContainer (table.mark t).label := by
  rw [KindTable.isContainer, KindTable.isContainer, structural_markNamed h hcategory,
    KindTable.info_markNamed]

/-! ### Tokens that the tables do not list -/

/-- Neither a node nor anything inside it plays a role. -/
def SyntaxTree.Unlisted (table : KindTable) (t : SyntaxTree) : Prop :=
  ∀ s ∈ t.subtrees, ∀ role, table.has role s.label.kind = false

/-- A kind without a role is not structural. -/
theorem KindTable.isStructural_eq_false {kind : Json}
    (h : ∀ role, table.has role kind = false) : table.isStructural kind = false := by
  simp [isStructural, category?, h]

/-- A tree in which nothing plays a role shows no structure. -/
theorem SyntaxTree.Unlisted.showsStructure {t : SyntaxTree} (h : t.Unlisted table) :
    table.showsStructure (table.mark t) = false := by
  induction t using Tree.induction with
  | node info children ih =>
    have hchildren : ∀ s ∈ children, table.showsStructure (table.mark s) = false := fun s hs =>
      ih s hs fun u hu => h u (Tree.mem_subtrees_of_mem_children hs hu)
    have hself := KindTable.isStructural_eq_false (h _ (Tree.mem_subtrees_self _))
    rw [KindTable.showsStructure, MarkedTree.kind, KindTable.kind_mark, hself, Bool.or_false,
      KindTable.structural_mark, KindTable.children_mark]
    simpa using hchildren

namespace MarkedTree

variable {s t : MarkedTree}

/-- A node is inside another one, and is named or plays a role. -/
def KnownIn (table : KindTable) (t s : MarkedTree) : Prop :=
  s ∈ t.subtrees ∧ (s.isNamed = true ∨ ∃ role, table.has role s.label.kind = true)

/-- A child that is found for a role plays that role. -/
theorem knownIn_of_child? {role : Role} (h : s ∈ t.child? table role) : t.KnownIn table s :=
  ⟨Tree.mem_subtrees_of_mem_children (mem_children_of_child h) (Tree.mem_subtrees_self s),
    .inr ⟨role, by simpa using List.find?_some h⟩⟩

/-- What is found as a condition plays that role or is a named child. -/
theorem knownIn_of_condition? (h : s ∈ t.condition? table) : t.KnownIn table s := by
  rcases Option.or_eq_some_iff.1 h with h | ⟨_, h⟩
  · exact knownIn_of_child? h
  · obtain ⟨hchild, hnamed⟩ := List.mem_filter.1 (List.mem_of_getElem? h)
    exact ⟨Tree.mem_subtrees_of_mem_children hchild (Tree.mem_subtrees_self s), .inl hnamed⟩

/-- What is found as a name plays a role. -/
theorem knownIn_of_name? (h : s ∈ t.name? table) : t.KnownIn table s := by
  rcases Option.or_eq_some_iff.1 h with h | ⟨_, h⟩ <;> exact knownIn_of_child? h

/-- What a construct finds is inside it, and is named or plays a role. -/
theorem knownIn_of_found (h : s ∈ t.found table) : t.KnownIn table s := by
  -- What is looked up depends on the category of the node.
  unfold found at h
  split at h
  · simp only [List.mem_append, Option.mem_toList] at h
    rcases h with (h | h) | h
    · exact knownIn_of_condition? h
    · exact knownIn_of_child? h
    · exact knownIn_of_child? h
  · simp only [List.mem_append, Option.mem_toList] at h
    exact h.elim knownIn_of_condition? knownIn_of_child?
  · obtain ⟨hlooked, hrole⟩ := List.mem_filter.1 h
    obtain ⟨child, hchild, hs⟩ := Tree.mem_allSubtrees.1 (mem_subtrees_of_mem_lookedAt hlooked)
    refine ⟨Tree.mem_subtrees_of_mem_children hchild hs, .inr ?_⟩
    exact (Bool.or_eq_true_iff.1 hrole).elim (fun hrole => ⟨_, hrole⟩) fun hrole => ⟨_, hrole⟩
  · cases h
  · simp only [List.mem_append, Option.mem_toList] at h
    exact h.elim knownIn_of_name? knownIn_of_child?
  · cases h

end MarkedTree

/-- Where no token plays a role and none holds a node that does, every node
is clear. -/
theorem SyntaxTree.clear_of_unlisted {t : SyntaxTree}
    (h : ∀ s : SyntaxTree, s ∈ t.subtrees → s.isNamed = false → s.Unlisted table) :
    t.Clear table := by
  intro s hs
  have hinside : ∀ u ∈ s.subtrees, u ∈ t.subtrees := fun u hu =>
    Tree.mem_subtrees_trans (mem_subtrees_of_mem_namedSubtrees hs) hu
  refine ⟨fun m hm => ?_, fun _ hany => ?_⟩
  -- A token that is found would play a role, and one that shows structure would hold a construct.
  · obtain ⟨hmem, hnamed | ⟨role, hrole⟩⟩ := MarkedTree.knownIn_of_found hm
    · exact hnamed
    · rw [KindTable.subtrees_mark] at hmem
      obtain ⟨u, hu, rfl⟩ := List.mem_map.1 hmem
      rw [KindTable.isNamed_mark]
      by_contra hnamed
      have hunlisted := h u (hinside u hu) (by simpa using hnamed) u (Tree.mem_subtrees_self u) role
      rw [KindTable.kind_mark, hunlisted] at hrole
      cases hrole
  · rw [KindTable.namedChildren_mark, List.any_map]
    rw [KindTable.children_mark, List.any_map, List.any_eq_true] at hany
    obtain ⟨u, hu, hshows⟩ := hany
    refine List.any_eq_true.2 ⟨u, SyntaxTree.mem_namedChildren.2 ⟨hu, ?_⟩, hshows⟩
    by_contra hnamed
    have hmem := Tree.mem_subtrees_of_mem_children hu (Tree.mem_subtrees_self u)
    have hunlisted := (h u (hinside u hmem) (by simpa using hnamed)).showsStructure
    rw [Function.comp_apply, hunlisted] at hshows
    cases hshows

end

end Flowchart
