import Flowchart.Proofs.Kinds.Known
import Flowchart.Proofs.Kinds.Tokens

/-!
# `Flowchart.Proofs.Kinds.Comments`: trees without their comments

A comment that has nothing below it is passed over wherever it stands. No
construct takes it for a part, since no kind of comment plays another role; it
holds no structure and is no wrapper. So what is found in a tree without such
comments is what is found in the tree, again without them, and no node is
marked otherwise.

Comments count among the named children of a node. They can stand in for a
condition that is not there, and they are named with an arm. That is left out
here: only the texts of a graph depend on it.

* `withoutComments`: a tree without its comments;
* `KindTable.Quiet`: comments can be looked up, and play no other role;
* `mark_withoutComments`: comments make no difference to marks;
* `child?_withoutComments`, `arms_withoutComments`: what is found without
  comments.
-/

set_option autoImplicit false

namespace Flowchart

open Flowchart.Tree hiding node

/-- Comments can be looked up, and play no other role. -/
structure KindTable.Quiet (table : KindTable) : Prop where
  isKey : ∀ kind, table.isComment kind = true → kind.isKey = true
  apart : ∀ role, role ≠ .comments → table.Apart .comments role

/-- The default table is quiet. -/
theorem KindTable.quiet_default : KindTable.default.Quiet where
  isKey kind h := by
    obtain ⟨_, _, hkey⟩ := has_default.1 h
    cases kind with
    | string => rfl
    | _ => cases hkey
  apart _ := apart_comments

namespace SyntaxTree

/-- A comment with nothing below it. -/
def isBareComment (table : KindTable) (t : SyntaxTree) : Bool :=
  table.isComment t.label.kind && t.children.isEmpty

/-- A tree without the comments below its root that have nothing below
them. -/
def withoutComments (table : KindTable) (t : SyntaxTree) : SyntaxTree :=
  t.without (isBareComment table)

/-- Where all kinds are names, those of the tree without its comments are. -/
theorem KindsNamed.withoutComments {table : KindTable} {t : SyntaxTree} (h : t.KindsNamed) :
    (t.withoutComments table).KindsNamed := by
  intro s hs
  obtain ⟨u, hu, hlabel⟩ := exists_of_mem_subtrees_without hs
  rw [← hlabel]
  exact h u hu

end SyntaxTree

namespace MarkedTree

/-- A comment with nothing below it. -/
def isBareComment (table : KindTable) (t : MarkedTree) : Bool :=
  table.isComment t.label.kind && t.children.isEmpty

/-- A tree without the comments below its root that have nothing below
them. -/
def withoutComments (table : KindTable) (t : MarkedTree) : MarkedTree :=
  t.without (isBareComment table)

section

variable {table : KindTable} {t : MarkedTree}

/-! ### What a comment is not -/

/-- A bare comment plays no role besides that of a comment. -/
theorem has_of_isBareComment (hquiet : table.Quiet) (h : t.isBareComment table = true)
    {role : Role} (hrole : role ≠ .comments) : table.has role t.label.kind = false :=
  hquiet.apart role hrole _ (Bool.and_eq_true_iff.1 h).1

/-- A bare comment has no children. -/
theorem children_of_isBareComment (h : t.isBareComment table = true) : t.children = [] :=
  List.isEmpty_iff.1 (Bool.and_eq_true_iff.1 h).2

/-- A bare comment has no category. -/
theorem category?_of_isBareComment (hquiet : table.Quiet) (h : t.isBareComment table = true) :
    table.category? t.label.kind = none := by
  rw [KindTable.category?, List.find?_eq_none]
  intro category _
  rw [has_of_isBareComment hquiet h (by cases category <;> decide)]
  decide

/-! ### What is left of a node -/

/-- The root keeps its label. -/
theorem label_withoutComments (t : MarkedTree) : (t.withoutComments table).label = t.label :=
  label_without t

/-- The children that are left are those that are no bare comments, each without
its own. -/
theorem children_withoutComments (t : MarkedTree) :
    (t.withoutComments table).children =
      (t.children.filter fun s : MarkedTree => !s.isBareComment table).map
        (withoutComments table) :=
  children_without t

/-- The named children that are left are those that are no bare comments, each
without its own. -/
theorem namedChildren_withoutComments (t : MarkedTree) :
    (t.withoutComments table).namedChildren =
      (t.namedChildren.filter fun s => !s.isBareComment table).map (withoutComments table) := by
  have hnamed : isNamed ∘ withoutComments table = isNamed := by
    funext s
    rw [Function.comp_apply, isNamed, label_withoutComments, isNamed]
  rw [namedChildren, namedChildren, children_withoutComments, List.filter_map, hnamed,
    List.filter_filter, List.filter_filter]
  simp only [Bool.and_comm]

/-! ### What is found -/

/-- The child in a role is the same, without its comments. -/
theorem child?_withoutComments (hquiet : table.Quiet) {role : Role} (hrole : role ≠ .comments)
    (t : MarkedTree) :
    (t.withoutComments table).child? table role =
      (t.child? table role).map (withoutComments table) := by
  have hlabels : ∀ (p : Json → Bool), (fun s : MarkedTree => p s.label.kind) ∘
      withoutComments table = fun s => p s.label.kind := by
    intro p
    funext s
    rw [Function.comp_apply, label_withoutComments]
  -- No search ends at a comment.
  have hpasses : ∀ s : MarkedTree, (!s.isBareComment table) = false →
      s.label.kind.isKey = true := by
    intro s hs
    rw [Bool.not_eq_false'] at hs
    exact hquiet.isKey _ (Bool.and_eq_true_iff.1 hs).1
  rw [child?, child?, children_withoutComments, List.takeWhile_map, hlabels Json.isKey,
    takeWhile_filter hpasses, List.find?_map, hlabels (table.has role)]
  congr 1
  refine find?_filter_of_found fun s hs => ?_
  -- What plays another role is no comment.
  have hhas := List.find?_some hs
  cases hbare : s.isBareComment table with
  | false => rfl
  | true => rw [has_of_isBareComment hquiet hbare hrole] at hhas; cases hhas

/-- The arms that are reached are the same, without their comments. -/
theorem lookedAt_withoutComments (hquiet : table.Quiet) (stack : List MarkedTree) :
    (lookedAt table
        ((stack.filter fun s => !s.isBareComment table).map (withoutComments table))).filter
        (fun s => table.has .arms s.label.kind) =
      ((lookedAt table stack).filter fun s => table.has .arms s.label.kind).map
        (withoutComments table) := by
  fun_induction lookedAt table stack with
  | case1 => rw [List.filter_nil, List.map_nil, lookedAt_nil]; rfl
  | case2 t stack inside ih =>
    cases hbare : t.isBareComment table with
    | true =>
      -- A comment is no arm, and nothing is inside it.
      have hinside : inside = [] := by
        simp only [inside, children_of_isBareComment hbare, dite_eq_ite, ite_self]
      have harm : table.has .arms t.label.kind = false :=
        has_of_isBareComment hquiet hbare (by decide)
      rw [hinside, List.nil_append] at ih ⊢
      rw [List.filter_cons_of_neg (by simp [hbare]), List.filter_cons_of_neg (by simp [harm]), ih]
    | false =>
      have hopen : (if table.has .armContainers (t.withoutComments table).label.kind then
          (t.withoutComments table).children else []) =
            (inside.filter fun s : MarkedTree => !s.isBareComment table).map
              (withoutComments table) := by
        simp only [inside, label_withoutComments, children_withoutComments, dite_eq_ite]
        split <;> rfl
      rw [List.filter_cons_of_pos (by simp [hbare]), List.map_cons, lookedAt_cons, hopen,
        ← List.map_append, ← List.filter_append, List.filter_cons, List.filter_cons,
        label_withoutComments, ih]
      split <;> rfl

/-- The arms of a choice are the same, without their comments. -/
theorem arms_withoutComments (hquiet : table.Quiet) (t : MarkedTree) :
    (t.withoutComments table).arms table = (t.arms table).map (withoutComments table) := by
  rw [arms, arms, children_withoutComments, lookedAt_withoutComments hquiet]

end

end MarkedTree

/-! ### Marks -/

namespace KindTable

variable {table : KindTable}

/-- A mark does not change whether a node is a bare comment. -/
theorem isBareComment_mark (t : SyntaxTree) :
    (table.mark t).isBareComment table = t.isBareComment table := by
  rw [MarkedTree.isBareComment, SyntaxTree.isBareComment, kind_mark, children_mark,
    List.isEmpty_map]

/-- A comment shows no structure. -/
theorem showsStructure_of_isBareComment (hquiet : table.Quiet) {t : SyntaxTree}
    (h : t.isBareComment table = true) : table.showsStructure (table.mark t) = false := by
  have hbare : (table.mark t).isBareComment table = true := (isBareComment_mark t).trans h
  rw [showsStructure, structural_mark, MarkedTree.children_of_isBareComment hbare, isStructural,
    MarkedTree.kind, MarkedTree.category?_of_isBareComment hquiet hbare]
  rfl

/-- A marked node has marked children, and a mark from these. -/
theorem mark_node (info : NodeInfo) (ts : List SyntaxTree) :
    table.mark (.node info ts) =
      .node ⟨info, (ts.map table.mark).any table.showsStructure⟩ (ts.map table.mark) := by
  rw [mark, markAll_eq_map]

/-- A row shows structure where it does without its comments. -/
theorem any_withoutComments (hquiet : table.Quiet) (ts : List SyntaxTree) :
    (((ts.map table.mark).filter fun s : MarkedTree => !s.isBareComment table).map
        (MarkedTree.withoutComments table)).any table.showsStructure =
      (ts.map table.mark).any table.showsStructure := by
  have hshows : table.showsStructure ∘ MarkedTree.withoutComments table = table.showsStructure := by
    funext s
    rw [Function.comp_apply, showsStructure, showsStructure, MarkedTree.kind, MarkedTree.kind,
      MarkedTree.label_withoutComments]
  rw [List.any_map, hshows, List.any_filter, List.any_map, List.any_map]
  congr 1
  funext s
  simp only [Function.comp_apply, isBareComment_mark]
  -- A comment that is left out shows no structure.
  cases hbare : s.isBareComment table with
  | false => rfl
  | true => rw [showsStructure_of_isBareComment hquiet hbare]; rfl

/-- A tree without its comments is marked as the tree is. -/
theorem mark_withoutComments (hquiet : table.Quiet) (t : SyntaxTree) :
    table.mark (t.withoutComments table) = (table.mark t).withoutComments table := by
  induction t using Tree.induction with
  | node info children ih =>
    have hbare : (fun s : MarkedTree => !s.isBareComment table) ∘ table.mark =
        fun s : SyntaxTree => !s.isBareComment table := by
      funext s
      rw [Function.comp_apply, isBareComment_mark]
    have hrow : ((children.filter fun s : SyntaxTree => !s.isBareComment table).map
          (without (SyntaxTree.isBareComment table))).map table.mark =
        ((children.map table.mark).filter fun s : MarkedTree => !s.isBareComment table).map
          (MarkedTree.withoutComments table) := by
      rw [List.filter_map, hbare, List.map_map, List.map_map]
      exact List.map_congr_left fun s hs => ih s (List.mem_filter.1 hs).1
    rw [SyntaxTree.withoutComments, without_node, mark_node, hrow, any_withoutComments hquiet,
      mark_node, MarkedTree.withoutComments, without_node]
    rfl

end KindTable

end Flowchart
