import Flowchart.Proofs.Outline.Within

/-!
# `Flowchart.Proofs.Outline.Order`: the order of blocks

Blocks are numbered as they are made, and control goes on to blocks that are
made later. There is one exception: what is drafted for the body of a loop
goes back to the header of the loop. So an edge either leads to a greater
number, or it is one of these, and then there is a loop inside the outline
that it belongs to.

* `Returns`: an edge goes back to the header of a loop inside an outline;
* `forward_or_returns`: every other edge of an outline leads forward.
-/

set_option autoImplicit false

namespace Flowchart.Draft

/-- Edges into one target come from the sources and have the flow. -/
theorem mem_joins {sources : List Nat} {target : Nat} {flow : Flow} {edge : Edge} :
    edge ∈ joins sources target flow ↔
      edge.source ∈ sources ∧ edge.target = target ∧ edge.flow = flow := by
  constructor
  · intro h
    obtain ⟨source, hsource, rfl⟩ := List.mem_map.1 h
    exact ⟨hsource, rfl, rfl⟩
  · rintro ⟨hsource, rfl, rfl⟩
    exact List.mem_map.2 ⟨edge.source, hsource, rfl⟩

namespace Outline

/-- An edge of an arm belongs to the arm or leads into it. -/
theorem mem_armsEdges {header : Nat} {arms : List (Flow × Outline)} {a : Nat} {edge : Edge}
    (h : edge ∈ armsEdges header arms a) :
    (∃ p ∈ placed arms a, edge ∈ p.2.edges p.1) ∨
      (edge.source = header ∧ ∃ p ∈ placed arms a, edge.target = p.1) := by
  induction arms generalizing a with
  | nil => cases h
  | cons arm arms ih =>
    simp only [armsEdges, List.mem_append, List.mem_cons] at h
    rcases h with h | rfl | h
    · exact .inl ⟨_, List.mem_cons_self, h⟩
    · exact .inr ⟨rfl, _, List.mem_cons_self, rfl⟩
    · rcases ih h with ⟨p, hp, h⟩ | ⟨hsource, p, hp, h⟩
      · exact .inl ⟨p, List.mem_cons_of_mem _ hp, h⟩
      · exact .inr ⟨hsource, p, List.mem_cons_of_mem _ hp, h⟩

section

variable {outline : Outline} {a : Nat} {edge : Edge}

/-- An edge of an outline belongs to a piece, leads forward, or goes from the
body of a loop back to its header. -/
inductive EdgeCases (outline : Outline) (a : Nat) (edge : Edge) : Prop where
  | within (p : Nat × Outline) (hp : p ∈ outline.pieces a) (h : edge ∈ p.2.edges p.1)
  | forward (h : edge.source < edge.target)
  | back (origin : Origin) (body : Outline) (houtline : outline = .loop origin (some body))
    (hsource : edge.source ∈ body.exits (a + 1)) (htarget : edge.target = a)
    (hflow : edge.flow = .next)

/-- An edge among the arms of an outline goes on to a later block or belongs to
a piece. -/
theorem Headed.edgeCases (headed : outline.Headed)
    (h : edge ∈ armsEdges a outline.arms (a + 1)) : outline.EdgeCases a edge := by
  rcases mem_armsEdges h with ⟨p, hp, h⟩ | ⟨hsource, p, hp, htarget⟩
  · exact .within p (headed.pieces a ▸ hp) h
  · have := placed_inside hp
    exact .forward (by omega)

/-- Edges from the exits of an outline to a block behind it lead forward. -/
theorem forward_of_mem_joins {inner : Outline} {b target : Nat} {flow : Flow}
    (h : edge ∈ joins (inner.exits b) target flow) (htarget : b + inner.size ≤ target) :
    edge.source < edge.target := by
  obtain ⟨hsource, rfl, _⟩ := mem_joins.1 h
  have := (covers_exit hsource).2
  omega

/-- An edge of an outline goes on to a later block, belongs to a piece or goes
back in a loop. -/
theorem edgeCases (h : edge ∈ outline.edges a) : outline.EdgeCases a edge := by
  -- Only a loop draws edges of its own that lead back; the others stay in a part or lead onward.
  rcases outline.sequel_or_headed with ⟨first, second, rfl⟩ | headed
  · simp only [edges, List.mem_append] at h
    rcases h with (h | h) | h
    · exact .within _ List.mem_cons_self h
    · exact .within _ (List.mem_cons_of_mem _ List.mem_cons_self) h
    · exact .forward (forward_of_mem_joins h (Nat.le_refl _))
  · cases outline with
    | statement _ => cases h
    | terminator _ => cases h
    | sequel first second => simpa [pieces, arms, placed] using headed.pieces a
    | branch _ _ body alternative =>
      rw [edges_branch] at h
      exact headed.edgeCases h
    | loop origin body =>
      rw [edges_loop, List.mem_append] at h
      rcases h with h | h
      · exact headed.edgeCases h
      · obtain ⟨hsource, htarget, hflow⟩ := mem_joins.1 h
        cases body with
        | none => simp [side, armsExits] at hsource
        | some body =>
          rw [armsExits_side] at hsource
          exact .back origin body rfl hsource htarget hflow
    | choice _ arms =>
      rw [edges] at h
      exact headed.edgeCases h
    | function _ body =>
      cases body with
      | none => cases h
      | some body =>
        simp only [edges, List.mem_append, List.mem_cons] at h
        rcases h with h | rfl | h
        · refine .within (a + 1, body) ?_ h
          rw [headed.pieces]
          exact List.mem_cons_self
        · exact .forward (Nat.lt_succ_self a)
        · exact .forward (forward_of_mem_joins h (Nat.le_refl _))

/-- An edge goes from the end of the body of a loop back to the header of the
loop, which lies inside an outline at some depth. -/
structure Returns (outer : Nat × Outline) (edge : Edge) : Prop where
  loop : ∃ origin body, Within outer (edge.target, .loop origin (some body)) ∧
    edge.source ∈ body.exits (edge.target + 1)
  flow : edge.flow = .next

/-- What is inside a piece is inside what the piece belongs to. -/
theorem Within.head {outer p q : Nat × Outline} (hp : p ∈ outer.2.pieces outer.1)
    (h : Within p q) : Within outer q :=
  (Within.whole.piece hp).trans h

/-- The edges of an outline lead forward, those that go back to the header of
a loop aside. -/
theorem forward_or_returns (h : edge ∈ outline.edges a) :
    edge.source < edge.target ∨ Returns (a, outline) edge := by
  induction outline using induction_pieces generalizing a with
  | h outline ih =>
    cases edgeCases h with
    | within p hp h =>
      rcases ih a p hp h with h | ⟨⟨origin, body, hwithin, hsource⟩, hflow⟩
      · exact .inl h
      · exact .inr ⟨⟨origin, body, hwithin.head hp, hsource⟩, hflow⟩
    | forward h => exact .inl h
    | back origin body houtline hsource htarget hflow =>
      subst houtline htarget
      exact .inr ⟨⟨origin, body, .whole, hsource⟩, hflow⟩

/-- What goes back to the header of a loop comes from behind it, out of the
loop. -/
theorem Returns.backward {outer : Nat × Outline} (h : Returns outer edge) :
    edge.target < edge.source := by
  obtain ⟨origin, body, _, hsource⟩ := h.loop
  have := (covers_exit hsource).1
  omega

end

end Outline

end Flowchart.Draft
