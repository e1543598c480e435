import Flowchart.Proofs.Draft.Faultless
import Flowchart.Syntax.Parsed

/-!
# `Flowchart.Proofs.Syntax.Parsed`: what is kept of a parser's tree

Whatever a parser says of the number of children, a copy of its tree is put
together of the nodes that the tree has. So the kinds of the copy are texts if
the parser names all kinds.

* `exists_of_mem_copy`: where the nodes of a copy come from;
* `kindsNamed_toSyntax`: the copy of a tree of named kinds is one.
-/

set_option autoImplicit false

namespace Flowchart

namespace ParsedTree

/-- The tree that a waiting node is the root of. -/
def Pending.tree : Pending → ParsedTree
  | .fresh tree => tree
  | .expanded tree => tree

/-- A copy is made of nodes that waited, and of what was finished before. -/
theorem exists_of_mem_copy {stack : List Pending} {done : List SyntaxTree}
    {P : NodeInfo → Prop} (hstack : ∀ p ∈ stack, ∀ t ∈ p.tree.subtrees, P t.label.info)
    (hdone : ∀ t ∈ done, ∀ s ∈ t.subtrees, P s.label) :
    ∀ t ∈ copy stack done, ∀ s ∈ t.subtrees, P s.label := by
  fun_induction copy stack done with
  | case1 done => exact hdone
  -- A fresh node waits again behind its children, and nothing is built.
  | case2 tree stack done ih =>
    obtain ⟨htree, hstack⟩ := List.forall_mem_cons.1 hstack
    refine ih ?_ hdone
    intro p hp
    rcases List.mem_append.1 hp with hp | hp
    · obtain ⟨child, hchild, rfl⟩ := List.mem_map.1 hp
      exact fun t ht => htree t (Tree.mem_subtrees_of_mem_children hchild ht)
    · exact List.forall_mem_cons.2 ⟨htree, hstack⟩ p hp
  -- Its children are done: they become those of the copy.
  | case3 tree stack done count ih =>
    obtain ⟨htree, hstack⟩ := List.forall_mem_cons.1 hstack
    refine ih hstack (List.forall_mem_cons.2 ⟨?_, ?_⟩)
    · intro s hs
      rcases List.mem_cons.1 hs with rfl | hs
      · exact htree tree (Tree.mem_subtrees_self tree)
      · obtain ⟨child, hchild, hs⟩ := Tree.mem_allSubtrees.1 hs
        have htaken : child ∈ done.take count := List.mem_reverse.1 hchild
        exact hdone child (List.mem_of_mem_take htaken) s hs
    · intro t ht
      exact hdone t (List.mem_of_mem_drop ht)

/-- Every kind that a parser gives in a tree is a text. -/
def KindsNamed (tree : ParsedTree) : Prop :=
  ∀ t ∈ tree.subtrees, ∃ name, t.label.info.kind = .string name

/-- A tree whose kinds are texts is copied to one whose kinds are texts. -/
theorem kindsNamed_toSyntax {tree : ParsedTree} (h : tree.KindsNamed) :
    tree.toSyntax.KindsNamed := by
  have hfresh : ∀ p ∈ [Pending.fresh tree], p.tree.KindsNamed := by
    intro p hp
    rw [List.mem_singleton.1 hp]
    exact h
  exact exists_of_mem_copy (P := fun info => ∃ name, info.kind = .string name) hfresh
    (List.forall_mem_nil _) tree.toSyntax (List.getLast_mem _)

end ParsedTree

end Flowchart
