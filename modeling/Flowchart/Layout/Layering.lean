import Flowchart.Diagram.Links

/-!
# `Flowchart.Layout.Layering`: the layer of every box

A box lies one layer below the lowest of its predecessors, and a box without
predecessors in layer 0. Layers are found depth first from each box in
order, and a layer once found is kept. A predecessor that is still being
looked at closes a cycle and counts as lying in layer 0; which arrows count
as going back depends on exactly this.

The search keeps its path on a stack of frames, so a long chain of boxes is
no deeper than the memory. It ends because each step either sees a box for
the first time, or takes a predecessor or a frame away.

- `assign`: the layers of all nodes;
- `layers`: the layers of a diagram.
-/

set_option autoImplicit false

namespace Flowchart.Layout

variable {ι : Type} [DecidableEq ι]

/-- Nodes with the predecessors of each, which are nodes too. -/
structure Predecessors (ι : Type) where
  nodes : List ι
  of : ι → List { n : ι // n ∈ nodes }

/-- The layers found so far, the latest first. -/
abbrev Layers (ι : Type) := List (ι × Nat)

/-- A node that is being looked at: the predecessors that are still to come,
and the least layer that those before them allow. -/
structure Frame (nodes : List ι) where
  node : ι
  rest : List { n : ι // n ∈ nodes }
  least : Nat

/-- How many nodes were not seen yet. -/
def unseen (nodes seen : List ι) : Nat :=
  (nodes.filter fun n => n ∉ seen).length

/-- Once a node is seen, fewer are not. -/
theorem unseen_cons_lt {nodes seen : List ι} {n : ι} (h : n ∈ nodes) (hn : n ∉ seen) :
    unseen nodes (n :: seen) < unseen nodes seen := by
  -- Seeing a node never makes more unseen. It makes fewer where the node stands.
  have hle : ∀ ms : List ι, unseen ms (n :: seen) ≤ unseen ms seen := by
    intro ms
    induction ms with
    | nil => simp [unseen]
    | cons m ms ih =>
      simp only [unseen, List.filter_cons] at ih ⊢
      by_cases hm : m ∈ seen
      · simpa [hm] using ih
      · by_cases hmn : m = n
        · simp [hmn, hn]
          simpa using Nat.le_succ_of_le ih
        · simpa [hm, hmn] using ih
  induction nodes with
  | nil => cases h
  | cons m ms ih =>
    by_cases hmn : m = n
    · subst hmn
      have := hle ms
      simp only [unseen, List.filter_cons] at this ⊢
      simp [hn]
      simpa using Nat.lt_succ_of_le this
    · have := ih ((List.mem_cons.1 h).resolve_left fun h => hmn h.symm)
      simp only [unseen, List.filter_cons] at this ⊢
      by_cases hm : m ∈ seen
      · simpa [hm] using this
      · simpa [hm, hmn] using this

/-- How many predecessors and frames are still to be taken away. -/
def pending {nodes : List ι} : List (Frame nodes) → Nat
  | [] => 0
  | frame :: stack => frame.rest.length + 1 + pending stack

/-- Hands the layer of a node to the node that asked for it. -/
def handOver {nodes : List ι} (layer : Nat) : List (Frame nodes) → List (Frame nodes)
  | [] => []
  | frame :: stack => { frame with least := max frame.least (layer + 1) } :: stack

omit [DecidableEq ι] in
/-- A layer that is handed over leaves as much to do. -/
theorem pending_handOver {nodes : List ι} (layer : Nat) (stack : List (Frame nodes)) :
    pending (handOver layer stack) = pending stack := by
  cases stack <;> simp [handOver, pending]

/-- Looks at the nodes on the stack until none is left. The nodes seen so
far and the layers found so far go in and come out. -/
def search (p : Predecessors ι) (seen : List ι) (layers : Layers ι) :
    List (Frame p.nodes) → List ι × Layers ι
  | [] => (seen, layers)
  | ⟨node, [], least⟩ :: stack => search p seen ((node, least) :: layers) (handOver least stack)
  | ⟨node, ⟨n, _known⟩ :: rest, least⟩ :: stack =>
    match layers.lookup n with
    | some layer => search p seen layers (⟨node, rest, max least (layer + 1)⟩ :: stack)
    | none =>
      if _new : n ∈ seen then search p seen layers (⟨node, rest, max least 1⟩ :: stack)
      else search p (n :: seen) layers (⟨n, p.of n, 0⟩ :: ⟨node, rest, least⟩ :: stack)
termination_by stack => (unseen p.nodes seen, pending stack)
decreasing_by
  -- Taking off a frame and passing over a predecessor leave less pending, going down leaves fewer
  -- unseen.
  · apply Prod.Lex.right
    rw [pending_handOver]
    simp [pending]
  · apply Prod.Lex.right
    simp [pending]
  · apply Prod.Lex.right
    simp [pending]
  · apply Prod.Lex.left
    exact unseen_cons_lt _known _new

/-- Finds the layer of a node, unless it was found before. -/
def assignFrom (p : Predecessors ι) (found : List ι × Layers ι) (root : ι) : List ι × Layers ι :=
  if (found.2.lookup root).isSome then found
  else search p (root :: found.1) found.2 [⟨root, p.of root, 0⟩]

/-- The layers of all nodes. -/
def assign (p : Predecessors ι) : Layers ι :=
  (p.nodes.foldl (assignFrom p) ([], [])).2

/-- The predecessors in a diagram. -/
def predecessorsOf (diagram : Diagram ι) : Predecessors ι :=
  let links := diagram.links
  { nodes := diagram.ids
    of := fun id => (links.filter fun link => link.target = id).map Diagram.Link.start }

/-- The layers of the boxes of a diagram. -/
def layers (diagram : Diagram ι) : Layers ι :=
  assign (predecessorsOf diagram)

end Flowchart.Layout
