import Flowchart.Syntax.Node

/-!
# `Flowchart.Syntax.Parsed`: trees as a parser hands them over

A parser's node says how many children it has besides having them, and it says
the rest in its own way: places in the source are pairs of numbers. Such a
tree is copied with a stack of its own, so the depth of nesting is bounded
by memory alone: a node is put back on the stack behind its children, and
when it comes up again its copied children are the last ones finished, as
many as it counts.

- `ParsedInfo.info`: what is copied of a node;
- `copy_ne_nil`: a copy of something is not empty.
-/

set_option autoImplicit false

namespace Flowchart

/-- What a node of a parser says. -/
structure ParsedInfo where
  type : Json
  startByte : Int
  endByte : Int
  /-- The row and the column of the first byte. -/
  startPoint : Int × Int
  /-- The row and the column behind the last byte. -/
  endPoint : Int × Int
  isNamed : Bool
  childCount : Nat
deriving Inhabited

/-- The place at a row and a column. -/
def Position.ofPoint (point : Int × Int) : Position :=
  ⟨point.1, point.2⟩

/-- What is copied of a parser's node: all that it says but the number of its
children. -/
def ParsedInfo.info (parsed : ParsedInfo) : NodeInfo where
  kind := parsed.type
  start := parsed.startByte
  stop := parsed.endByte
  startPosition := .ofPoint parsed.startPoint
  stopPosition := .ofPoint parsed.endPoint
  isNamed := parsed.isNamed

/-- A tree as a parser hands it over. -/
abbrev ParsedTree := Tree ParsedInfo

namespace ParsedTree

/-- A node that waits to be copied: its children come first, or are done. -/
inductive Pending where
  | fresh (tree : ParsedTree)
  | expanded (tree : ParsedTree)

/-- How much work a waiting node stands for. -/
def Pending.weight : Pending → Nat
  | .fresh tree => 2 * tree.size
  | .expanded _ => 1

/-- How much work a stack stands for. -/
def weight : List Pending → Nat
  | [] => 0
  | p :: stack => p.weight + weight stack

/-- What a stack weighs with one tree more. -/
theorem weight_cons (p : Pending) (stack : List Pending) :
    weight (p :: stack) = p.weight + weight stack := rfl

/-- A fresh tree on a stack weighs twice its nodes. -/
theorem weight_fresh (ts : List ParsedTree) (stack : List Pending) :
    weight (ts.map .fresh ++ stack) = 2 * Tree.sizes ts + weight stack := by
  induction ts with
  | nil => simp [Tree.sizes]
  | cons t ts ih =>
    rw [List.map_cons, List.cons_append, weight_cons, ih, Tree.sizes, Pending.weight]
    omega

/-- Copies what waits on the stack. Finished nodes are kept last first. -/
def copy : List Pending → List SyntaxTree → List SyntaxTree
  | [], done => done
  | .fresh tree :: stack, done =>
    copy (tree.children.map .fresh ++ .expanded tree :: stack) done
  | .expanded tree :: stack, done =>
    let count := tree.label.childCount
    copy stack (.node tree.label.info (done.take count).reverse :: done.drop count)
termination_by stack => weight stack
decreasing_by
  · rw [weight_fresh, weight_cons, weight_cons, Pending.weight, Pending.weight,
      Tree.size_eq tree]
    omega
  · rw [weight_cons, Pending.weight]
    omega

/-- A copy that was begun is not empty. -/
theorem copy_ne_nil (stack : List Pending) (done : List SyntaxTree)
    (h : stack ≠ [] ∨ done ≠ []) : copy stack done ≠ [] := by
  fun_induction copy stack done with
  | case1 done => simpa using h
  | case2 done tree stack ih => exact ih (.inl (by simp))
  | case3 done tree stack count ih => exact ih (.inr (by simp))

/-- The syntax tree of a parser's tree: the first node that was finished and
that no other one took. -/
def toSyntax (tree : ParsedTree) : SyntaxTree :=
  (copy [.fresh tree] []).getLast (copy_ne_nil _ _ (.inl (by simp)))

end ParsedTree

end Flowchart
