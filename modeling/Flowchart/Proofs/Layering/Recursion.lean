import Flowchart.Layout.Layering

/-!
# `Flowchart.Proofs.Layering.Recursion`: layers by recursion

The layer of a node, said without a stack: a layer that was found is kept, a
node that is still being looked at lies in layer 0, and any other lies one
below the lowest of its predecessors, which are resolved in order. The layers
found on the way are handed on.

The search on a stack finds the same layers in the same order. It knows
neither the path nor its end: all that it has are the nodes seen so far. What
makes up for that is that the nodes seen and not found are those on the path.

* `resolve`, `resolveAll`: the recursion;
* `Gathers`: what the recursion does with a row of nodes, node by node;
* `Gathers.search_eq`: the search on a stack goes through the predecessors of
  the node on top as the recursion does;
* `assign_eq`: the layers of the search are those of the recursion;
* `lookup_resolveAll`: every node gets a layer.
-/

set_option autoImplicit false

namespace Flowchart.Layout

variable {ι : Type} [DecidableEq ι]

mutual

/-- The layer of a node, with nodes that are being looked at and layers found
before, and the layers found now. -/
def resolve (p : Predecessors ι) (active : List ι) (found : Layers ι)
    (n : { n : ι // n ∈ p.nodes }) : Nat × Layers ι :=
  match found.lookup n.1 with
  | some layer => (layer, found)
  | none =>
    if _new : n.1 ∈ active then (0, found)
    else
      let (best, found) := greatest p (n.1 :: active) found (-1) (p.of n.1)
      ((best + 1).toNat, (n.1, (best + 1).toNat) :: found)
termination_by (unseen p.nodes active, 0)
decreasing_by
  apply Prod.Lex.left
  exact unseen_cons_lt n.2 _new

/-- The greatest of a number and the layers of some nodes, and the layers
found now. -/
def greatest (p : Predecessors ι) (active : List ι) (found : Layers ι) (best : Int) :
    List { n : ι // n ∈ p.nodes } → Int × Layers ι
  | [] => (best, found)
  | n :: rest =>
    let (layer, found) := resolve p active found n
    greatest p active found (max best layer) rest
termination_by ns => (unseen p.nodes active, ns.length + 1)
decreasing_by
  · apply Prod.Lex.right
    simp
  · apply Prod.Lex.right
    simp

end

/-- The layers of all nodes, resolved in order. -/
def resolveAll (p : Predecessors ι) : Layers ι :=
  p.nodes.attach.foldl (fun found n => (resolve p [] found n).2) []

variable {p : Predecessors ι} {active seen : List ι} {found : Layers ι} {best : Int}
  {n : { n : ι // n ∈ p.nodes }}

/-- A node with a layer has that layer. -/
theorem resolve_found {layer : Nat} (h : found.lookup n.1 = some layer) :
    resolve p active found n = (layer, found) := by
  rw [resolve, h]

/-- A node that is being looked at counts as being in layer 0. -/
theorem resolve_active (h : found.lookup n.1 = none) (hactive : n.1 ∈ active) :
    resolve p active found n = (0, found) := by
  simp [resolve, h, hactive]

/-- The predecessors of any other node are gone through, and it comes one layer
below the greatest. -/
theorem resolve_new (h : found.lookup n.1 = none) (hactive : n.1 ∉ active) :
    resolve p active found n =
      let opened := greatest p (n.1 :: active) found (-1) (p.of n.1)
      ((opened.1 + 1).toNat, (n.1, (opened.1 + 1).toNat) :: opened.2) := by
  simp [resolve, h, hactive]

/-- Going through no nodes leaves all as it is. -/
theorem greatest_nil : greatest p active found best [] = (best, found) := by
  rw [greatest]

/-- Going through a row of nodes resolves the first one and goes through the
others. -/
theorem greatest_cons (rest : List { n : ι // n ∈ p.nodes }) :
    greatest p active found best (n :: rest) =
      greatest p active (resolve p active found n).2
        (max best (resolve p active found n).1) rest := by
  rw [greatest]

/-- A new layer is that of one node only. -/
theorem lookup_cons_of_ne {m n : ι} (h : m ≠ n) (layer : Nat) (found : Layers ι) :
    List.lookup m ((n, layer) :: found) = found.lookup m := by
  rw [List.lookup_cons, beq_eq_false_iff_ne.2 h]

/-! ### What the recursion does -/

/-- Going through a row of nodes: what the recursion starts with, and the
greatest layer and the layers that it ends with. -/
inductive Gathers (p : Predecessors ι) : (active : List ι) → (found : Layers ι) → (best : Int) →
    List { n : ι // n ∈ p.nodes } → Int → Layers ι → Prop where
  | nil {active : List ι} {found : Layers ι} {best : Int} :
      Gathers p active found best [] best found
  /-- The node has a layer. -/
  | kept {active : List ι} {found found' : Layers ι} {best best' : Int} {layer : Nat}
      {n : { n : ι // n ∈ p.nodes }} {rest : List { n : ι // n ∈ p.nodes }}
      (hlookup : found.lookup n.1 = some layer)
      (hrest : Gathers p active found (max best layer) rest best' found') :
      Gathers p active found best (n :: rest) best' found'
  /-- The node is being looked at. -/
  | active {active : List ι} {found found' : Layers ι} {best best' : Int}
      {n : { n : ι // n ∈ p.nodes }} {rest : List { n : ι // n ∈ p.nodes }}
      (hlookup : found.lookup n.1 = none) (hactive : n.1 ∈ active)
      (hrest : Gathers p active found (max best 0) rest best' found') :
      Gathers p active found best (n :: rest) best' found'
  /-- The node is new: its own predecessors are gone through first. -/
  | opened {active : List ι} {found between found' : Layers ι} {best deep best' : Int}
      {n : { n : ι // n ∈ p.nodes }} {rest : List { n : ι // n ∈ p.nodes }}
      (hlookup : found.lookup n.1 = none) (hactive : n.1 ∉ active)
      (hopened : Gathers p (n.1 :: active) found (-1) (p.of n.1) deep between)
      (hrest : Gathers p active ((n.1, (deep + 1).toNat) :: between)
        (max best (deep + 1).toNat) rest best' found') :
      Gathers p active found best (n :: rest) best' found'

/-- The recursion goes through any row of nodes, one by one. -/
theorem gathers_greatest (p : Predecessors ι) (active : List ι) (found : Layers ι) (best : Int)
    (ns : List { n : ι // n ∈ p.nodes }) :
    Gathers p active found best ns (greatest p active found best ns).1
      (greatest p active found best ns).2 := by
  match ns with
  | [] =>
    rw [greatest_nil]
    exact .nil
  | n :: rest =>
    rw [greatest_cons]
    cases hlookup : found.lookup n.1 with
    | some layer =>
      rw [resolve_found hlookup]
      exact .kept hlookup (gathers_greatest p active found _ rest)
    | none =>
      by_cases hactive : n.1 ∈ active
      · rw [resolve_active hlookup hactive]
        exact .active hlookup hactive (gathers_greatest p active found _ rest)
      · rw [resolve_new hlookup hactive]
        exact .opened hlookup hactive (gathers_greatest p (n.1 :: active) found (-1) (p.of n.1))
          (gathers_greatest p active _ _ rest)
termination_by (unseen p.nodes active, ns.length)
decreasing_by
  -- One node of the row is left behind, or a new node has come to the path.
  · apply Prod.Lex.right
    simp
  · apply Prod.Lex.left
    exact unseen_cons_lt n.2 hactive
  · apply Prod.Lex.right
    simp
  · apply Prod.Lex.right
    simp

/-- Resolving a node is going through a row of one. -/
theorem gathers_resolve (p : Predecessors ι) (active : List ι) (found : Layers ι)
    (n : { n : ι // n ∈ p.nodes }) :
    Gathers p active found (-1) [n] (max (-1) (resolve p active found n).1)
      (resolve p active found n).2 := by
  have h := gathers_greatest p active found (-1) [n]
  rwa [greatest_cons, greatest_nil] at h

namespace Gathers

variable {found' : Layers ι} {best' : Int} {ns : List { n : ι // n ∈ p.nodes }}

/-- The greatest layer does not get less. -/
theorem le_best (h : Gathers p active found best ns best' found') : best ≤ best' := by
  induction h with
  | nil => exact Int.le_refl _
  | kept _ _ ih => exact Int.le_trans (Int.le_max_left _ _) ih
  | active _ _ _ ih => exact Int.le_trans (Int.le_max_left _ _) ih
  | opened _ _ _ _ _ ih => exact Int.le_trans (Int.le_max_left _ _) ih

/-- A layer once found is kept. -/
theorem keeps (h : Gathers p active found best ns best' found') {m : ι} {layer : Nat}
    (hm : found.lookup m = some layer) : found'.lookup m = some layer := by
  induction h with
  | nil => exact hm
  | kept _ _ ih => exact ih hm
  | active _ _ _ ih => exact ih hm
  | @opened _ _ _ _ _ _ _ n _ hlookup _ _ _ ihOpened ihRest =>
    have hne : m ≠ n.1 := by
      rintro rfl
      rw [hlookup] at hm
      cases hm
    refine ihRest ?_
    rw [lookup_cons_of_ne hne]
    exact ihOpened hm

end Gathers

/-! ### The search on a stack -/

/-- The nodes seen are those that were found and those on the path. -/
def Tracks (seen active : List ι) (found : Layers ι) : Prop :=
  ∀ n, n ∈ seen ↔ (found.lookup n).isSome ∨ n ∈ active

/-- A node that is looked at comes to those seen and to the path. -/
theorem Tracks.see (h : Tracks seen active found) (n : ι) :
    Tracks (n :: seen) (n :: active) found := by
  intro m
  rw [List.mem_cons, List.mem_cons, h m, or_left_comm]

/-- A node that is found leaves the path. -/
theorem Tracks.find {n : ι} (h : Tracks seen (n :: active) found) (layer : Nat) :
    Tracks seen active ((n, layer) :: found) := by
  intro m
  rw [h m]
  by_cases hm : m = n
  · simp [hm]
  · simp [hm, lookup_cons_of_ne hm]

/-- A frame without predecessors left is taken off the stack, and its layer
is handed over. -/
theorem search_close (node : ι) (least : Nat) (stack : List (Frame p.nodes)) :
    search p seen found (⟨node, [], least⟩ :: stack) =
      search p seen ((node, least) :: found) (handOver least stack) := by
  rw [search]

/-- The search passes over a predecessor that has a layer. -/
theorem search_found {layer : Nat} (h : found.lookup n.1 = some layer) (node : ι)
    (rest : List { n : ι // n ∈ p.nodes }) (least : Nat) (stack : List (Frame p.nodes)) :
    search p seen found (⟨node, n :: rest, least⟩ :: stack) =
      search p seen found (⟨node, rest, max least (layer + 1)⟩ :: stack) := by
  rw [search, h]

/-- The search passes over a predecessor that has been seen and has no layer. -/
theorem search_active (h : found.lookup n.1 = none) (hseen : n.1 ∈ seen) (node : ι)
    (rest : List { n : ι // n ∈ p.nodes }) (least : Nat) (stack : List (Frame p.nodes)) :
    search p seen found (⟨node, n :: rest, least⟩ :: stack) =
      search p seen found (⟨node, rest, max least 1⟩ :: stack) := by
  rw [search]
  simp [h, hseen]

/-- The search goes down to a predecessor that has not been seen. -/
theorem search_new (h : found.lookup n.1 = none) (hseen : n.1 ∉ seen) (node : ι)
    (rest : List { n : ι // n ∈ p.nodes }) (least : Nat) (stack : List (Frame p.nodes)) :
    search p seen found (⟨node, n :: rest, least⟩ :: stack) =
      search p (n.1 :: seen) found (⟨n.1, p.of n.1, 0⟩ :: ⟨node, rest, least⟩ :: stack) := by
  rw [search]
  simp [h, hseen]

/-- The search goes through the predecessors of the node on top of the stack
as the recursion does. The least layer that it keeps is one more than the
greatest layer that the recursion keeps. -/
theorem Gathers.search_eq {found' : Layers ι} {best' : Int} {ns : List { n : ι // n ∈ p.nodes }}
    (h : Gathers p active found best ns best' found') (hbest : -1 ≤ best)
    (htracks : Tracks seen active found) (node : ι) (stack : List (Frame p.nodes)) :
    ∃ seen', Tracks seen' active found' ∧
      search p seen found (⟨node, ns, (best + 1).toNat⟩ :: stack) =
        search p seen' found' (⟨node, [], (best' + 1).toNat⟩ :: stack) := by
  induction h generalizing seen node stack with
  | nil => exact ⟨_, htracks, rfl⟩
  | @kept _ _ _ best _ layer n rest hlookup _ ih =>
    have hleast : max (best + 1).toNat (layer + 1) = (max best layer + 1).toNat := by omega
    rw [search_found hlookup, hleast]
    exact ih (by omega) htracks node stack
  | @active _ _ _ best _ n rest hlookup hactive _ ih =>
    have hleast : max (best + 1).toNat 1 = (max best 0 + 1).toNat := by omega
    rw [search_active hlookup ((htracks n).2 (.inr hactive)), hleast]
    exact ih (by omega) htracks node stack
  | @opened _ _ _ _ best deep _ n rest hlookup hactive hopened _ ihOpened ihRest =>
    have hseen : n.1 ∉ seen := by simp [htracks n, hlookup, hactive]
    rw [search_new hlookup hseen]
    -- The node is opened, its predecessors are gone through, and it is closed.
    obtain ⟨between, hbetween, hsearch⟩ := ihOpened (Int.le_refl _) (htracks.see n.1) n.1
      (⟨node, rest, (best + 1).toNat⟩ :: stack)
    have hzero : ((-1 : Int) + 1).toNat = 0 := rfl
    have hleast : max (best + 1).toNat ((deep + 1).toNat + 1) =
        (max best (deep + 1).toNat + 1).toNat := by omega
    rw [hzero] at hsearch
    rw [hsearch, search_close, handOver, hleast]
    exact ihRest (by omega) (hbetween.find _) node stack

/-- The search from one node finds what the recursion finds. -/
theorem assignFrom_eq (p : Predecessors ι) (seen : List ι) (found : Layers ι)
    (n : { n : ι // n ∈ p.nodes }) (htracks : Tracks seen [] found) :
    Tracks (assignFrom p (seen, found) n.1).1 [] (resolve p [] found n).2 ∧
      (assignFrom p (seen, found) n.1).2 = (resolve p [] found n).2 := by
  cases hlookup : found.lookup n.1 with
  | some layer =>
    rw [resolve_found hlookup]
    simp [assignFrom, hlookup, htracks]
  | none =>
    obtain ⟨seen', htracks', hsearch⟩ := (gathers_greatest p [n.1] found (-1) (p.of n.1)).search_eq
      (Int.le_refl _) (htracks.see n.1) n.1 []
    -- The search starts at the layer that a node without predecessors has.
    have hzero : ((-1 : Int) + 1).toNat = 0 := rfl
    rw [hzero, search_close, handOver, search] at hsearch
    rw [resolve_new hlookup List.not_mem_nil]
    simp only [assignFrom, hlookup, hsearch, Option.isSome_none, Bool.false_eq_true, if_false]
    exact ⟨htracks'.find _, trivial⟩

/-- The layers of the search are those of the recursion. -/
theorem assign_eq (p : Predecessors ι) : assign p = resolveAll p := by
  have h : ∀ (ns : List { n : ι // n ∈ p.nodes }) (seen : List ι) (found : Layers ι),
      Tracks seen [] found →
        ((ns.map Subtype.val).foldl (assignFrom p) (seen, found)).2 =
          ns.foldl (fun found n => (resolve p [] found n).2) found := by
    intro ns
    induction ns with
    | nil => exact fun _ _ _ => rfl
    | cons n ns ih =>
      intro seen found htracks
      obtain ⟨htracks', hfound⟩ := assignFrom_eq p seen found n htracks
      rw [List.map_cons, List.foldl_cons, List.foldl_cons, ← hfound]
      rw [← hfound] at htracks'
      exact ih _ _ htracks'
  -- The recursion goes through the nodes with their proofs, the search without.
  have hall := h p.nodes.attach [] [] (by simp [Tracks])
  rwa [List.attach_map_subtype_val] at hall

/-! ### Every node gets a layer -/

/-- A node that is resolved has a layer. -/
theorem lookup_resolve (p : Predecessors ι) (found : Layers ι) (n : { n : ι // n ∈ p.nodes }) :
    ((resolve p [] found n).2.lookup n.1).isSome := by
  cases hlookup : found.lookup n.1 with
  | some layer => simp [resolve_found hlookup, hlookup]
  | none => simp [resolve_new hlookup List.not_mem_nil]

/-- Layers that were there stay. -/
theorem keeps_resolve {m : ι} {layer : Nat} (hm : found.lookup m = some layer)
    (n : { n : ι // n ∈ p.nodes }) : (resolve p [] found n).2.lookup m = some layer :=
  (gathers_resolve p [] found n).keeps hm

/-- Once all nodes are resolved, each has a layer. -/
theorem lookup_resolveAll {n : ι} (h : n ∈ p.nodes) : ((resolveAll p).lookup n).isSome := by
  -- A node that has a layer keeps it, and one that is still to come gets one.
  have hfold : ∀ (ns : List { n : ι // n ∈ p.nodes }) (found : Layers ι),
      (found.lookup n).isSome ∨ ⟨n, h⟩ ∈ ns →
        ((ns.foldl (fun found n => (resolve p [] found n).2) found).lookup n).isSome := by
    intro ns
    induction ns with
    | nil => exact fun found hn => hn.resolve_right List.not_mem_nil
    | cons m ns ih =>
      intro found hn
      rw [List.foldl_cons]
      refine ih _ ?_
      rcases hn with hn | hn
      · obtain ⟨layer, hlayer⟩ := Option.isSome_iff_exists.1 hn
        exact .inl (by rw [keeps_resolve hlayer m]; rfl)
      · rcases List.mem_cons.1 hn with rfl | hn
        · exact .inl (lookup_resolve p found ⟨n, h⟩)
        · exact .inr hn
  exact hfold _ _ (.inr (List.mem_attach _ _))

end Flowchart.Layout
