import Flowchart.Proofs.Outline.Sealed
import Mathlib.Computability.Language
import Mathlib.Data.List.Chain

/-!
# `Flowchart.Proofs.Outline.Walks`: walks along edges

A walk goes from block to block along the edges of a graph. The walks from a
block to some others are a language over the numbers of the blocks. Walks are
put together where an edge leads from the end of one to the start of the
next, and a walk that starts at a sealed outline is taken apart where it
leaves the outline for the first time.

* `walks`: the walks from a block to one of some others;
* `append_mem_walks`: two walks with an edge between them are a walk;
* `Sealed.walks_cases`: a walk stays in a sealed outline, or leaves it from an
  exit.
-/

set_option autoImplicit false

namespace Flowchart.Draft

/-- The walks along edges from a block to one of some others, each as the
row of blocks that it comes by. -/
def walks (edges : List Edge) (entry : Nat) (exits : List Nat) : Language Nat :=
  {w | w.IsChain (Joined edges) ∧ w.head? = some entry ∧ ∃ n ∈ exits, w.getLast? = some n}

section

variable {edges edges' : List Edge} {a b m n : Nat} {exits exits' : List Nat} {u v w : List Nat}

/-- A walk stays one where there are more edges. -/
theorem walks_mono (h : ∀ {m n}, Joined edges m n → Joined edges' m n)
    (hw : w ∈ walks edges a exits) : w ∈ walks edges' a exits :=
  ⟨hw.1.imp fun _ _ => h, hw.2⟩

/-- A walk to some blocks goes to any that the last of it is among. -/
theorem walks_exits (h : ∀ n, w.getLast? = some n → n ∈ exits → n ∈ exits')
    (hw : w ∈ walks edges a exits) : w ∈ walks edges a exits' := by
  obtain ⟨hchain, hhead, n, hn, hlast⟩ := hw
  exact ⟨hchain, hhead, n, h n hlast hn, hlast⟩

/-- From an exit, one can stop right away. -/
theorem singleton_mem_walks (h : a ∈ exits) : [a] ∈ walks edges a exits :=
  ⟨.singleton a, rfl, a, h, rfl⟩

/-- Two walks with an edge between them are a walk. -/
theorem append_mem_walks (hu : u ∈ walks edges a exits) (hv : v ∈ walks edges b exits')
    (h : ∀ m ∈ exits, Joined edges m b) : u ++ v ∈ walks edges a exits' := by
  obtain ⟨huchain, huhead, m, hm, hulast⟩ := hu
  obtain ⟨hvchain, hvhead, n, hn, hvlast⟩ := hv
  refine ⟨List.isChain_append.2 ⟨huchain, hvchain, ?_⟩, ?_, n, hn, ?_⟩
  · intro x hx y hy
    cases hulast.symm.trans hx
    cases hvhead.symm.trans hy
    exact h m hm
  · rw [List.head?_append, huhead]
    rfl
  · rw [List.getLast?_append, hvlast]
    rfl

/-- A walk is over where it starts, or it goes on along an edge. -/
theorem walks_head (hw : w ∈ walks edges a exits) :
    (w = [a] ∧ a ∈ exits) ∨
      ∃ n v, w = a :: v ∧ Joined edges a n ∧ v ∈ walks edges n exits := by
  obtain ⟨hchain, hhead, m, hm, hlast⟩ := hw
  cases w with
  | nil => cases hhead
  | cons x v =>
    cases hhead
    cases v with
    | nil =>
      cases hlast
      exact .inl ⟨rfl, hm⟩
    | cons n v =>
      rw [List.isChain_cons_cons] at hchain
      rw [List.getLast?_cons_cons] at hlast
      exact .inr ⟨n, n :: v, rfl, hchain.1, hchain.2, rfl, m, hm, hlast⟩

end

namespace Outline

/-! ### Walks through a sealed outline -/

variable {edges : List Edge} {p : Nat × Outline} {exits : List Nat} {w : List Nat}

/-- From inside a sealed outline, a chain of edges stays in the outline or
leaves it from an exit. -/
theorem Sealed.chain_cases (hp : Sealed edges p) {m : Nat} (hm : p.2.Covers p.1 m)
    (hw : (m :: w).IsChain (Joined edges)) :
    ((m :: w).IsChain (Joined (p.2.edges p.1)) ∧ ∀ n ∈ m :: w, p.2.Covers p.1 n) ∨
      ∃ u v x n, w = u ++ n :: v ∧ (m :: u).IsChain (Joined (p.2.edges p.1)) ∧
        (m :: u).getLast? = some x ∧ x ∈ p.2.exits p.1 ∧ Joined edges x n ∧
        ¬p.2.Covers p.1 n := by
  -- The chain is followed as long as it stays inside.
  induction w generalizing m with
  | nil => exact .inl ⟨.singleton m, by simpa using hm⟩
  | cons n w ih =>
    rw [List.isChain_cons_cons] at hw
    by_cases hn : p.2.Covers p.1 n
    · have hjoined := hp.inside hw.1 hm hn
      rcases ih hn hw.2 with ⟨hchain, hcovers⟩ | ⟨u, v, x, k, rfl, hchain, hlast, hx, hk⟩
      · refine .inl ⟨List.isChain_cons_cons.2 ⟨hjoined, hchain⟩, fun k hk => ?_⟩
        rcases List.mem_cons.1 hk with rfl | hk
        · exact hm
        · exact hcovers k hk
      · refine .inr ⟨n :: u, v, x, k, rfl, List.isChain_cons_cons.2 ⟨hjoined, hchain⟩, ?_, hx, hk⟩
        rwa [List.getLast?_cons_cons]
    · exact .inr ⟨[], w, m, n, rfl, .singleton m, rfl, hp.left hw.1 hm hn, hw.1, hn⟩

/-- A walk from the first block of a sealed outline stays in the outline, or
leaves it from an exit. -/
theorem Sealed.walks_cases (hp : Sealed edges p) (hw : w ∈ walks edges p.1 exits) :
    (w ∈ walks (p.2.edges p.1) p.1 exits ∧ ∃ n ∈ exits, w.getLast? = some n ∧ p.2.Covers p.1 n) ∨
      ∃ u v x n, w = u ++ v ∧ u ∈ walks (p.2.edges p.1) p.1 (p.2.exits p.1) ∧
        v ∈ walks edges n exits ∧ x ∈ p.2.exits p.1 ∧ Joined edges x n ∧ ¬p.2.Covers p.1 n := by
  obtain ⟨hchain, hhead, last, hlast, hw⟩ := hw
  cases w with
  | nil => cases hhead
  | cons first w =>
    cases hhead
    rcases hp.chain_cases (p.2.covers_first p.1) hchain with
      ⟨hchain, hcovers⟩ | ⟨u, v, x, n, rfl, huchain, hulast, hx, hn⟩
    · have hcovered := hcovers last (List.mem_of_getLast? hw)
      exact .inl ⟨⟨hchain, rfl, last, hlast, hw⟩, last, hlast, hw, hcovered⟩
    -- The walk is cut where it leaves the outline.
    · have hvchain := (List.isChain_append.1 (List.cons_append ▸ hchain)).2.1
      refine .inr ⟨p.1 :: u, n :: v, x, n, rfl, ⟨huchain, rfl, x, hx, hulast⟩, ?_, hx, hn⟩
      refine ⟨hvchain, rfl, last, hlast, ?_⟩
      rw [← List.cons_append, List.getLast?_append] at hw
      simpa using hw

end Outline

end Flowchart.Draft
