import Flowchart.Proofs.Layering.Recursion
import Mathlib.Logic.Relation
import Mathlib.Data.List.Chain
import Mathlib.Order.MinMax

/-!
# `Flowchart.Proofs.Layering.Descent`: where layers do not descend

A node lies right below the lowest of its predecessors, except for those from
which it was still being looked at when they were asked. The nodes that are
being looked at form a path, on which each node precedes the one before it. So
an exception is a predecessor that the node itself leads to, and the two lie
on a cycle.

Such a predecessor counts as lying in layer 0. That is too little to push a node
below layer 1, so cycles or not, a node lies in layer 0 if it has no predecessors
and nowhere else, and a node below layer 1 lies right below one of them.

All that is said of layers is said where a node gets its own. What is known of
its predecessors at that moment is one structure, and a property of layers
that goes over to one more node holds of the layers of all nodes.

* `Precedes`: one node is a predecessor of another;
* `Settles`: what is known when a node gets its layer;
* `assign_induction`: properties of the layers of all nodes;
* `fits_assign`: each node lies below its predecessors, or leads to them;
* `tight_assign`: each node is in layer 0, or below a node of the layer above;
* `known_assign`: nothing but nodes has a layer.
-/

set_option autoImplicit false

namespace Flowchart.Layout

variable {ι : Type}

/-- Whether one node is a predecessor of another. -/
def Precedes (p : Predecessors ι) (m n : ι) : Prop :=
  m ∈ (p.of n).map Subtype.val

/-- Whether a node leads to another one. -/
abbrev Reaches (p : Predecessors ι) : ι → ι → Prop :=
  Relation.ReflTransGen (Precedes p)

variable {p : Predecessors ι} {active : List ι}

/-- On a path, the node at the end leads to every node. -/
theorem reaches_of_isChain {n m : ι} (h : (n :: active).IsChain (Precedes p))
    (hm : m ∈ n :: active) : Reaches p n m := by
  induction active generalizing n with
  | nil =>
    obtain rfl := List.mem_singleton.1 hm
    exact .refl
  | cons o active ih =>
    obtain ⟨hno, hrest⟩ := List.isChain_cons_cons.1 h
    rcases List.mem_cons.1 hm with rfl | hm
    · exact .refl
    · exact .head hno (ih hrest hm)

variable [DecidableEq ι] {found : Layers ι}

/-! ### Going through predecessors -/

namespace Gathers

variable {best best' : Int} {found' : Layers ι} {ns : List { n : ι // n ∈ p.nodes }}

/-- Nodes that are being looked at get no layer meanwhile. -/
theorem waits (h : Gathers p active found best ns best' found') {m : ι} (hm : m ∈ active)
    (hfound : found.lookup m = none) : found'.lookup m = none := by
  induction h with
  | nil => exact hfound
  | kept _ _ ih => exact ih hm hfound
  | active _ _ _ ih => exact ih hm hfound
  | opened hlookup hactive _ _ ihOpened ihRest =>
    have hne := ne_of_mem_of_not_mem hm hactive
    refine ihRest hm ?_
    rw [lookup_cons_of_ne hne]
    exact ihOpened (List.mem_cons_of_mem _ hm) hfound

/-- After a row of nodes was gone through, each of them has a layer, which
counted, or is still being looked at. -/
theorem counts (h : Gathers p active found best ns best' found') {n : { n : ι // n ∈ p.nodes }}
    (hn : n ∈ ns) : (∃ layer : Nat, (layer : Int) ≤ best' ∧ found'.lookup n.1 = some layer) ∨
      n.1 ∈ active := by
  induction h with
  | nil => cases hn
  | @kept _ _ _ _ _ layer _ _ hlookup hrest ih =>
    rcases List.mem_cons.1 hn with rfl | hn
    · have hle := hrest.le_best
      exact .inl ⟨layer, by omega, hrest.keeps hlookup⟩
    · exact ih hn
  | active _ hactive _ ih =>
    rcases List.mem_cons.1 hn with rfl | hn
    · exact .inr hactive
    · exact ih hn
  -- The layer that was found counts for the best, and stays.
  | @opened _ _ _ _ _ deep _ _ _ _ _ _ hrest _ ih =>
    rcases List.mem_cons.1 hn with rfl | hn
    · have hle := hrest.le_best
      exact .inl ⟨(deep + 1).toNat, by omega, hrest.keeps (by simp)⟩
    · exact ih hn

/-- Every node that is gone through counts for some layer. -/
theorem nonneg (h : Gathers p active found best ns best' found') (hns : ns ≠ []) : 0 ≤ best' := by
  cases h with
  | nil => exact absurd rfl hns
  | @kept _ _ _ _ _ layer _ _ _ hrest =>
    have hle := hrest.le_best
    omega
  | active _ _ hrest =>
    have hle := hrest.le_best
    omega
  | @opened _ _ _ _ _ deep _ _ _ _ _ _ hrest =>
    have hle := hrest.le_best
    omega

omit [DecidableEq ι] in
/-- A greatest number above 0 is due to what was there before, to the first
item, or to one behind it. -/
theorem le_or_exists_cons {Q : { n : ι // n ∈ p.nodes } → Prop} {n : { n : ι // n ∈ p.nodes }}
    {layer : Nat} (hbest : max best layer ≤ best') (hn : best' = layer → Q n)
    (h : best' ≤ max (max best layer) 0 ∨ ∃ m ∈ ns, Q m) :
    best' ≤ max best 0 ∨ ∃ m ∈ n :: ns, Q m := by
  rcases h with hle | ⟨m, hm, hQ⟩
  · rcases lt_or_ge (max best 0) best' with hlt | hge
    · exact .inr ⟨n, List.mem_cons_self, hn (by omega)⟩
    · exact .inl hge
  · exact .inr ⟨m, List.mem_cons_of_mem n hm, hQ⟩

/-- After a row of nodes was gone through, a greatest number above 0 was there
before, or is the layer of one of them: a node that is still being looked at
counts for no more. -/
theorem reached (h : Gathers p active found best ns best' found') :
    best' ≤ max best 0 ∨
      ∃ n ∈ ns, ∃ layer : Nat, best' = layer ∧ found'.lookup n.1 = some layer := by
  induction h with
  | nil => exact .inl (le_max_left _ _)
  | @kept _ _ _ _ _ layer n _ hlookup hrest ih =>
    refine le_or_exists_cons hrest.le_best ?_ ih
    intro heq
    exact ⟨layer, heq, hrest.keeps hlookup⟩
  -- A node on the path counts as 0, whatever its layer will be.
  | active _ _ _ ih =>
    rcases ih with hle | ⟨m, hm, hreached⟩
    · exact .inl (by omega)
    · exact .inr ⟨m, List.mem_cons_of_mem _ hm, hreached⟩
  | @opened _ _ _ _ _ deep _ n _ _ _ _ hrest _ ih =>
    refine le_or_exists_cons hrest.le_best ?_ ih
    intro heq
    exact ⟨(deep + 1).toNat, heq, hrest.keeps (by simp)⟩

end Gathers

/-! ### One node more -/

omit [DecidableEq ι] in
/-- A node has no predecessors if nothing precedes it. -/
theorem of_eq_nil_iff {n : ι} : p.of n = [] ↔ ∀ m, ¬Precedes p m n := by
  simp only [Precedes, ← List.eq_nil_iff_forall_not_mem, List.map_eq_nil_iff]

/-- What is known when a node gets its layer, right below the greatest layer of
its predecessors: it has none so far, and each predecessor counted unless the
node leads to it. The greatest layer is below 0 if there are no predecessors,
and it is that of one of them if it is above 0. -/
structure Settles (p : Predecessors ι) (found : Layers ι) (n : ι) (greatest : Int) : Prop where
  known : n ∈ p.nodes
  fresh : found.lookup n = none
  counts : ∀ m, Precedes p m n →
    (∃ above : Nat, (above : Int) ≤ greatest ∧ found.lookup m = some above) ∨ Reaches p n m
  first : greatest < 0 ↔ ∀ m, ¬Precedes p m n
  reached : greatest ≤ 0 ∨
    ∃ m, Precedes p m n ∧ ∃ above : Nat, greatest = above ∧ found.lookup m = some above

/-- A node that was opened settles, if it goes on the path of those that are
being looked at. -/
theorem Gathers.settles {between : Layers ι} {deep : Int} {n : { n : ι // n ∈ p.nodes }}
    (h : Gathers p (n.1 :: active) found (-1) (p.of n.1) deep between)
    (hpath : (n.1 :: active).IsChain (Precedes p)) (hfound : found.lookup n.1 = none) :
    Settles p between n.1 deep where
  known := n.2
  fresh := h.waits List.mem_cons_self hfound
  counts m hm := by
    obtain ⟨m, hmem, rfl⟩ := List.mem_map.1 hm
    exact (Gathers.counts h hmem).imp_right (reaches_of_isChain hpath)
  first := by
    rw [← of_eq_nil_iff]
    constructor
    -- A result below zero means that there was nothing to go through.
    · intro hlt
      by_contra hsome
      have hnonneg := h.nonneg hsome
      omega
    · intro hnone
      rw [hnone] at h
      cases h
      decide
  reached := by
    rcases h.reached with hle | ⟨m, hm, hreached⟩
    · exact .inl (by omega)
    · exact .inr ⟨m, List.mem_map_of_mem hm, hreached⟩

/-- A property of layers that goes over to a node that settles is kept when a row
of nodes is gone through, as long as each of them goes on the path of those that
are being looked at. -/
theorem Gathers.preserves {P : Layers ι → Prop}
    (hadd : ∀ found n greatest, P found → Settles p found n greatest →
      P ((n, (greatest + 1).toNat) :: found))
    {best best' : Int} {found' : Layers ι} {ns : List { n : ι // n ∈ p.nodes }}
    (h : Gathers p active found best ns best' found') (hP : P found)
    (hpath : ∀ n ∈ ns, (n.1 :: active).IsChain (Precedes p)) : P found' := by
  induction h with
  | nil => exact hP
  | kept _ _ ih => exact ih hP fun n hn => hpath n (List.mem_cons_of_mem _ hn)
  | active _ _ _ ih => exact ih hP fun n hn => hpath n (List.mem_cons_of_mem _ hn)
  -- The descent keeps the property on a longer path, and then the node itself gets its layer.
  | @opened _ _ between _ _ _ _ n _ hlookup _ hopened _ ihOpened ihRest =>
    have hn := hpath n List.mem_cons_self
    have hbetween : P between := by
      refine ihOpened hP ?_
      intro m hm
      exact List.isChain_cons_cons.2 ⟨List.mem_map_of_mem hm, hn⟩
    exact ihRest (hadd _ _ _ hbetween (hopened.settles hn hlookup))
      fun m hm => hpath m (List.mem_cons_of_mem _ hm)

/-- A property that goes over to a node that settles holds of the layers of all
nodes. -/
theorem assign_induction {P : Layers ι → Prop} (hnil : P [])
    (hadd : ∀ found n greatest, P found → Settles p found n greatest →
      P ((n, (greatest + 1).toNat) :: found)) : P (assign p) := by
  have hfold : ∀ (ns : List { n : ι // n ∈ p.nodes }) (found : Layers ι), P found →
      P (ns.foldl (fun found n => (resolve p [] found n).2) found) := by
    intro ns
    induction ns with
    | nil => exact fun _ h => h
    | cons n ns ih =>
      intro found h
      refine ih _ ((gathers_resolve p [] found n).preserves hadd h ?_)
      -- No node is being looked at, so each one is a path of its own.
      intro m _
      exact List.isChain_singleton m.1
  rw [assign_eq]
  exact hfold _ _ hnil

/-! ### The layers of all nodes -/

/-- A layer that some node has is not touched by a new one. -/
theorem Settles.keeps {n m : ι} {greatest : Int} {layer above : Nat}
    (h : Settles p found n greatest) (hm : found.lookup m = some above) :
    List.lookup m ((n, layer) :: found) = some above := by
  have hne : m ≠ n := by
    rintro rfl
    rw [h.fresh] at hm
    cases hm
  rw [lookup_cons_of_ne hne, hm]

/-- Whether the nodes that have a layer lie below their predecessors, or else
lead to them. -/
def Fits (p : Predecessors ι) (found : Layers ι) : Prop :=
  ∀ m n layer, Precedes p m n → found.lookup n = some layer →
    (∃ above < layer, found.lookup m = some above) ∨ Reaches p n m

/-- The layers of all nodes descend wherever there is no cycle. -/
theorem fits_assign (p : Predecessors ι) : Fits p (assign p) := by
  refine assign_induction nofun ?_
  intro found n greatest hfits hsettles m o layer hprec hlookup
  by_cases hon : o = n
  -- The new node lies below every predecessor that counted.
  · subst hon
    obtain rfl : (greatest + 1).toNat = layer := by simpa using hlookup
    exact (hsettles.counts m hprec).imp_left fun ⟨above, hle, hm⟩ =>
      ⟨above, by omega, hsettles.keeps hm⟩
  · rw [lookup_cons_of_ne hon] at hlookup
    exact (hfits m o layer hprec hlookup).imp_left fun ⟨above, hlt, hm⟩ =>
      ⟨above, hlt, hsettles.keeps hm⟩

/-- What the layer of a node is, cycles or not: 0 if it has no predecessors,
and else 1 or right below one of them. -/
structure Tight (p : Predecessors ι) (found : Layers ι) (n : ι) (layer : Nat) : Prop where
  first : layer = 0 ↔ ∀ m, ¬Precedes p m n
  below : 2 ≤ layer → ∃ m, Precedes p m n ∧ found.lookup m = some (layer - 1)

/-- A node that settles is tight. -/
theorem Settles.tight {n : ι} {greatest : Int} (h : Settles p found n greatest) :
    Tight p ((n, (greatest + 1).toNat) :: found) n (greatest + 1).toNat := by
  constructor
  · rw [← h.first]
    omega
  · intro hlayer
    rcases h.reached with hle | ⟨m, hprec, above, hgreatest, hm⟩
    · omega
    · refine ⟨m, hprec, ?_⟩
      rw [h.keeps hm]
      congr 1
      omega

/-- All nodes are tight, also on cycles. -/
theorem tight_assign (p : Predecessors ι) :
    ∀ n layer, (assign p).lookup n = some layer → Tight p (assign p) n layer := by
  refine assign_induction (P := fun found => ∀ n layer, found.lookup n = some layer →
    Tight p found n layer) nofun ?_
  intro found n greatest htight hsettles m layer hlookup
  by_cases hmn : m = n
  · subst hmn
    obtain rfl : (greatest + 1).toNat = layer := by simpa using hlookup
    exact hsettles.tight
  -- The layers of the nodes before are not touched.
  · rw [lookup_cons_of_ne hmn] at hlookup
    obtain ⟨hfirst, hbelow⟩ := htight m layer hlookup
    refine ⟨hfirst, fun hlayer => ?_⟩
    obtain ⟨o, hprec, ho⟩ := hbelow hlayer
    exact ⟨o, hprec, hsettles.keeps ho⟩

/-- Whether nothing but nodes has a layer. -/
def Known (p : Predecessors ι) (found : Layers ι) : Prop :=
  ∀ n layer, found.lookup n = some layer → n ∈ p.nodes

/-- Nothing but nodes gets a layer. -/
theorem known_assign (p : Predecessors ι) : Known p (assign p) := by
  refine assign_induction nofun ?_
  intro found n greatest hknown hsettles o layer hlookup
  by_cases hon : o = n
  · exact hon ▸ hsettles.known
  · rw [lookup_cons_of_ne hon] at hlookup
    exact hknown o layer hlookup

end Flowchart.Layout
