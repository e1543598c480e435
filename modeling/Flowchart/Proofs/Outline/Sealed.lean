import Flowchart.Proofs.Outline.Pieces

/-!
# `Flowchart.Proofs.Outline.Sealed`: outlines with one way in

An outline is sealed in a graph when the graph gets into it at its first
block, out of it from its exits, and has no edges of its own inside it. What
is sealed has sealed pieces.

* `Sealed.piece`: the pieces of a sealed outline are sealed;
* `sealed_self`: an outline is sealed in its own graph.
-/

set_option autoImplicit false

namespace Flowchart.Draft

namespace Outline

/-- Control gets into an outline at its first block only and out of it from
its exits only, and inside it goes along its own edges. -/
structure Sealed (edges : List Edge) (p : Nat × Outline) : Prop where
  entered : ∀ {m n}, Joined edges m n → ¬p.2.Covers p.1 m → p.2.Covers p.1 n → n = p.1
  left : ∀ {m n}, Joined edges m n → p.2.Covers p.1 m → ¬p.2.Covers p.1 n → m ∈ p.2.exits p.1
  inside : ∀ {m n}, Joined edges m n → p.2.Covers p.1 m → p.2.Covers p.1 n →
    Joined (p.2.edges p.1) m n

/-- Pieces that share a block are the same. -/
theorem piece_unique {outline : Outline} {a n : Nat} {p q : Nat × Outline}
    (hp : p ∈ outline.pieces a) (hq : q ∈ outline.pieces a) (hn : p.2.Covers p.1 n)
    (hn' : q.2.Covers q.1 n) : p = q := by
  rcases pieces_apart hp hq with h | h | h
  · exact h
  all_goals
    unfold Covers at hn hn'
    omega

namespace Sealed

variable {edges : List Edge} {p q : Nat × Outline} {m n : Nat}

/-- An edge into a piece goes to its first block. -/
theorem piece_entered (hp : Sealed edges p) (hq : q ∈ p.2.pieces p.1) (h : Joined edges m n)
    (hm : ¬q.2.Covers q.1 m) (hn : q.2.Covers q.1 n) : n = q.1 := by
  have hn' := covers_of_piece hq hn
  by_cases hm' : p.2.Covers p.1 m
  · cases edging (hp.inside h hm' hn') with
    | within s hs h =>
      obtain ⟨hsm, hsn⟩ := covers_joined h
      cases piece_unique hs hq hsn hn
      exact absurd hsm hm
    | enter s hs _ hsn =>
      subst hsn
      rw [piece_unique hs hq (s.2.covers_first s.1) hn]
    | leave s _ _ hbare => exact absurd hn (hbare.2 q hq)
    | across s t _ ht _ _ htn =>
      subst htn
      rw [piece_unique ht hq (t.2.covers_first t.1) hn]
  -- Only the first block of the outline can be entered, and a piece that has it starts there.
  · have hfirst := hp.entered h hm' hn'
    have hinside := pieces_inside hq
    unfold Covers at hn
    omega

/-- An edge out of a piece comes from one of its exits. -/
theorem piece_left (hp : Sealed edges p) (hq : q ∈ p.2.pieces p.1) (h : Joined edges m n)
    (hm : q.2.Covers q.1 m) (hn : ¬q.2.Covers q.1 n) : m ∈ q.2.exits q.1 := by
  have hm' := covers_of_piece hq hm
  by_cases hn' : p.2.Covers p.1 n
  · cases edging (hp.inside h hm' hn') with
    | within s hs h =>
      obtain ⟨hsm, hsn⟩ := covers_joined h
      cases piece_unique hs hq hsm hm
      exact absurd hsn hn
    | enter s _ hbare _ => exact absurd hm (hbare.2 q hq)
    | leave s hs hsm _ =>
      cases piece_unique hs hq (covers_exit hsm) hm
      exact hsm
    | across s t hs _ _ hsm _ =>
      cases piece_unique hs hq (covers_exit hsm) hm
      exact hsm
  -- An edge that leaves the outline as well comes from an exit of the outline.
  · rcases exits_cases (hp.left h hm' hn') with ⟨s, hs, hsm⟩ | hbare
    · cases piece_unique hs hq (covers_exit hsm) hm
      exact hsm
    · exact absurd hm (hbare.2 q hq)

/-- An edge inside a piece is one of its own. -/
theorem piece_inside (hp : Sealed edges p) (hq : q ∈ p.2.pieces p.1) (h : Joined edges m n)
    (hm : q.2.Covers q.1 m) (hn : q.2.Covers q.1 n) : Joined (q.2.edges q.1) m n := by
  cases edging (hp.inside h (covers_of_piece hq hm) (covers_of_piece hq hn)) with
  | within s hs h =>
    cases piece_unique hs hq (covers_joined h).1 hm
    exact h
  | enter s _ hbare _ => exact absurd hm (hbare.2 q hq)
  | leave s _ _ hbare => exact absurd hn (hbare.2 q hq)
  | across s t hs ht hst hsm htn =>
    subst htn
    cases piece_unique hs hq (covers_exit hsm) hm
    cases piece_unique ht hq (t.2.covers_first t.1) hn
    have := q.2.size_pos
    omega

/-- The pieces of a sealed outline are sealed. -/
theorem piece (hp : Sealed edges p) (hq : q ∈ p.2.pieces p.1) : Sealed edges q :=
  ⟨hp.piece_entered hq, hp.piece_left hq, hp.piece_inside hq⟩

end Sealed

/-- An outline is sealed in its own graph. -/
theorem sealed_self (outline : Outline) (a : Nat) : Sealed (outline.edges a) (a, outline) :=
  ⟨fun h hm _ => absurd (covers_joined h).1 hm, fun h _ hn => absurd (covers_joined h).2 hn,
    fun h _ _ => h⟩

end Outline

end Flowchart.Draft
