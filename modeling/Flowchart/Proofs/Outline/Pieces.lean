import Flowchart.Proofs.Outline.Basic

/-!
# `Flowchart.Proofs.Outline.Pieces`: the outlines that an outline is made of

The pieces of an outline are the outlines directly inside it, each with the
number of its first block. They lie inside the outline and apart from each
other, and what they do not cover is bare: the header of a construct and the
block that ends a function.

Every edge of an outline either belongs to a piece or joins pieces and bare
blocks, and such an edge comes out of an exit and goes into an entry. What
holds inside all outlines is proved from that, piece by piece.

* `Joined`: some edge leads from one block to another;
* `edging`, `exits_cases`: the edges and exits of an outline, in terms of its
  pieces;
* `covers_exit`, `covers_joined`: exits and edges stay inside an outline.
-/

set_option autoImplicit false

namespace Flowchart.Draft

/-! ### Edges between two blocks -/

/-- Some edge leads from one block to another. -/
def Joined (edges : List Edge) (source target : Nat) : Prop :=
  ∃ edge ∈ edges, edge.source = source ∧ edge.target = target

section

variable {edges edges' : List Edge} {edge : Edge} {m n : Nat}

/-- Where there are no edges, no blocks are joined. -/
@[simp]
theorem joined_nil : ¬Joined [] m n := by
  rintro ⟨_, h, _⟩
  cases h

/-- Edges of two rows join what one of the rows joins. -/
@[simp]
theorem joined_append : Joined (edges ++ edges') m n ↔ Joined edges m n ∨ Joined edges' m n := by
  simp only [Joined, List.mem_append, or_and_right, exists_or]

/-- One edge more joins its two ends. -/
@[simp]
theorem joined_cons :
    Joined (edge :: edges) m n ↔ (edge.source = m ∧ edge.target = n) ∨ Joined edges m n := by
  simp only [Joined, List.mem_cons, or_and_right, exists_or, exists_eq_left]

/-- Edges into one target join each source with it. -/
@[simp]
theorem joined_joins {sources : List Nat} {target : Nat} {flow : Flow} :
    Joined (joins sources target flow) m n ↔ m ∈ sources ∧ n = target := by
  constructor
  · rintro ⟨_, h, rfl, rfl⟩
    obtain ⟨source, hsource, rfl⟩ := List.mem_map.1 h
    exact ⟨hsource, rfl⟩
  · rintro ⟨h, rfl⟩
    exact ⟨_, List.mem_map.2 ⟨m, h, rfl⟩, rfl, rfl⟩

end

/-! ### Numbers without repetitions -/

/-- What is kept of numbers that come one by one: those kept before and those
that came. -/
theorem mem_foldl_distinct (numbers kept : List Nat) (n : Nat) :
    n ∈ numbers.foldl (fun kept n => if kept.contains n then kept else kept ++ [n]) kept ↔
      n ∈ kept ∨ n ∈ numbers := by
  induction numbers generalizing kept with
  | nil => simp
  | cons m numbers ih =>
    rw [List.foldl_cons, ih, List.mem_cons]
    by_cases hm : m ∈ kept
    · have hkept : n = m → n ∈ kept := fun h => h ▸ hm
      simp only [List.contains_iff_mem, hm, if_true]
      grind
    · simp only [List.contains_iff_mem, hm, if_false, List.mem_append, List.mem_singleton, or_assoc]

/-- Leaving repetitions out loses no number. -/
theorem mem_distinct (numbers : List Nat) (n : Nat) :
    n ∈ Construct.distinct numbers ↔ n ∈ numbers := by
  rw [Construct.distinct, mem_foldl_distinct]
  simp

/-- Among numbers that are kept one by one, none comes twice. -/
theorem nodup_foldl_distinct (numbers kept : List Nat) (h : kept.Nodup) :
    (numbers.foldl (fun kept n => if kept.contains n then kept else kept ++ [n]) kept).Nodup := by
  induction numbers generalizing kept with
  | nil => exact h
  | cons m numbers ih =>
    rw [List.foldl_cons]
    by_cases hm : m ∈ kept
    · rw [if_pos (by simpa using hm)]
      exact ih kept h
    · rw [if_neg (by simpa using hm)]
      refine ih _ (List.nodup_append.2 ⟨h, List.pairwise_singleton _ m, fun x hx y hy => ?_⟩)
      rw [List.mem_singleton.1 hy]
      exact fun hxm => hm (hxm ▸ hx)

/-- Leaving repetitions out leaves none. -/
theorem nodup_distinct (numbers : List Nat) : (Construct.distinct numbers).Nodup :=
  nodup_foldl_distinct numbers [] List.nodup_nil

namespace Outline

/-! ### Rows of arms -/

/-- The arms of a row, each with the number of its first block. -/
def placed : List (Flow × Outline) → Nat → List (Nat × Outline)
  | [], _ => []
  | (_, arm) :: arms, a => (a, arm) :: placed arms (a + arm.size)

/-- A part that may have built nothing, as a row of arms. -/
def side (flow : Flow) (part : Option Outline) : List (Flow × Outline) :=
  (part.map fun outline => (flow, outline)).toList

/-- A block lies inside an outline. -/
def Covers (outline : Outline) (a n : Nat) : Prop :=
  a ≤ n ∧ n < a + outline.size

/-- The first block of an outline is one of its blocks. -/
theorem covers_first (outline : Outline) (a : Nat) : outline.Covers a a := by
  have := outline.size_pos
  unfold Covers
  omega

/-- An arm lies between the start and the end of its row. -/
theorem placed_inside {arms : List (Flow × Outline)} {a : Nat} {p : Nat × Outline}
    (h : p ∈ placed arms a) : a ≤ p.1 ∧ p.1 + p.2.size ≤ a + armsSize arms := by
  induction arms generalizing a with
  | nil => cases h
  | cons arm arms ih =>
    simp only [placed, List.mem_cons, armsSize] at h ⊢
    rcases h with rfl | h
    · simp only
      omega
    · have := ih h
      omega

/-- Two arms of a row are the same, or one lies before the other. -/
theorem placed_apart {arms : List (Flow × Outline)} {a : Nat} {p q : Nat × Outline}
    (hp : p ∈ placed arms a) (hq : q ∈ placed arms a) :
    p = q ∨ p.1 + p.2.size ≤ q.1 ∨ q.1 + q.2.size ≤ p.1 := by
  induction arms generalizing a with
  | nil => cases hp
  | cons arm arms ih =>
    simp only [placed, List.mem_cons] at hp hq
    rcases hp with rfl | hp <;> rcases hq with rfl | hq
    · exact .inl rfl
    · exact .inr (.inl (placed_inside hq).1)
    · exact .inr (.inr (placed_inside hp).1)
    · exact ih hp hq

/-- A row of arms is left from the exits of its arms. -/
theorem mem_armsExits {arms : List (Flow × Outline)} {a n : Nat} :
    n ∈ armsExits arms a ↔ ∃ p ∈ placed arms a, n ∈ p.2.exits p.1 := by
  induction arms generalizing a with
  | nil => simp [armsExits, placed]
  | cons arm arms ih => simp [armsExits, placed, ih]

/-- The edges of a row of arms are those inside its arms, and one from the
header into each arm. -/
theorem joined_armsEdges {header : Nat} {arms : List (Flow × Outline)} {a m n : Nat} :
    Joined (armsEdges header arms a) m n ↔
      ∃ p ∈ placed arms a, Joined (p.2.edges p.1) m n ∨ (header = m ∧ p.1 = n) := by
  induction arms generalizing a with
  | nil => simp [armsEdges, placed]
  | cons arm arms ih => simp [armsEdges, placed, ih, or_assoc]

/-! ### Pieces -/

/-- The arms of an outline: what is behind its header. -/
def arms : Outline → List (Flow × Outline)
  | .branch _ _ body alternative => side .whenTrue body ++ side .whenFalse alternative
  | .loop _ body => side .body body
  | .choice _ arms => arms
  | .function _ body => side .onward body
  | _ => []

/-- The outlines directly inside an outline, each with the number of its
first block. -/
def pieces : Outline → Nat → List (Nat × Outline)
  | .sequel first second, a => [(a, first), (a + first.size, second)]
  | outline, a => placed outline.arms (a + 1)

/-- A part alone in a row is as long as the row. -/
theorem armsSize_side (flow : Flow) (part : Option Outline) :
    armsSize (side flow part) = sizeIfAny part := by
  cases part <;> simp [side, armsSize, sizeIfAny]

/-- Two rows in one are as long as both together. -/
theorem armsSize_append (arms arms' : List (Flow × Outline)) :
    armsSize (arms ++ arms') = armsSize arms + armsSize arms' := by
  induction arms with
  | nil => simp [armsSize]
  | cons arm arms ih => simp [armsSize, ih, Nat.add_assoc]

/-- The edges of a row of one part are those of the part and the one into it. -/
theorem armsEdges_side (header : Nat) (flow : Flow) (part : Option Outline) (a : Nat) :
    armsEdges header (side flow part) a = sideEdges header flow part a := by
  cases part <;> simp [side, armsEdges, sideEdges]

/-- Two rows in one have the edges of both, the second row being numbered behind
the first. -/
theorem armsEdges_append (header : Nat) (arms arms' : List (Flow × Outline)) (a : Nat) :
    armsEdges header (arms ++ arms') a =
      armsEdges header arms a ++ armsEdges header arms' (a + armsSize arms) := by
  induction arms generalizing a with
  | nil => simp [armsEdges, armsSize]
  | cons arm arms ih => simp [armsEdges, armsSize, ih, Nat.add_assoc]

/-- A row of one part is left from the exits of the part. -/
theorem armsExits_side (flow : Flow) (part : Option Outline) (a : Nat) :
    armsExits (side flow part) a = exitsIfAny [] part a := by
  cases part <;> simp [side, armsExits, exitsIfAny]

/-- Two rows in one are left from the exits of both. -/
theorem armsExits_append (arms arms' : List (Flow × Outline)) (a : Nat) :
    armsExits (arms ++ arms') a = armsExits arms a ++ armsExits arms' (a + armsSize arms) := by
  induction arms generalizing a with
  | nil => simp [armsExits, armsSize]
  | cons arm arms ih => simp [armsExits, armsSize, ih, Nat.add_assoc]

/-- A block of an outline that lies in none of its pieces. -/
def Bare (outline : Outline) (a n : Nat) : Prop :=
  outline.Covers a n ∧ ∀ p ∈ outline.pieces a, ¬p.2.Covers p.1 n

/-! The edges and exits of each construct, by its arms. -/

/-- The edges of a branch are those of its parts, taken as a row behind the
header. -/
theorem edges_branch (origin : Origin) (hasAlternative : Bool) (body alternative : Option Outline)
    (a : Nat) :
    (Outline.branch origin hasAlternative body alternative).edges a =
      armsEdges a (side .whenTrue body ++ side .whenFalse alternative) (a + 1) := by
  rw [edges, armsEdges_append, armsEdges_side, armsEdges_side, armsSize_side]

/-- The edges of a loop are those of its body, and those that lead back to the
header. -/
theorem edges_loop (origin : Origin) (body : Option Outline) (a : Nat) :
    (Outline.loop origin body).edges a =
      armsEdges a (side .body body) (a + 1) ++
        joins (armsExits (side .body body) (a + 1)) a .next := by
  rw [edges, armsEdges_side, armsExits_side]

/-- The edges of a function are those of its body, and those that lead from the
exits of the body to the last block. -/
theorem joined_function (origin : Origin) (body : Option Outline) (a m n : Nat) :
    Joined ((Outline.function origin body).edges a) m n ↔
      Joined (armsEdges a (side .onward body) (a + 1)) m n ∨
        (m ∈ armsExits (side .onward body) (a + 1) ∧ n = a + 1 + sizeIfAny body) := by
  cases body with
  | none => simp [edges, side, armsEdges, armsExits]
  | some body => simp [edges, side, armsEdges, armsExits, sizeIfAny, or_assoc]

/-- A branch is left from the exits of its parts, and from its header if the
body built nothing or there is no other part. -/
theorem mem_exits_branch (origin : Origin) (hasAlternative : Bool)
    (body alternative : Option Outline) (a n : Nat) :
    n ∈ (Outline.branch origin hasAlternative body alternative).exits a ↔
      n ∈ armsExits (side .whenTrue body ++ side .whenFalse alternative) (a + 1) ∨
        (n = a ∧ (body = none ∨ (alternative = none ∧ hasAlternative = false))) := by
  rw [exits, mem_distinct, armsExits_append, armsExits_side, armsExits_side, armsSize_side]
  cases body <;> cases alternative <;> cases hasAlternative <;>
    simp [exitsIfAny, or_comm]

/-- A choice is left from the exits of its arms, or from its header if the arms
have none. -/
theorem mem_exits_choice (origin : Origin) (arms : List (Flow × Outline)) (a n : Nat) :
    n ∈ (Outline.choice origin arms).exits a ↔
      n ∈ armsExits arms (a + 1) ∨ (n = a ∧ armsExits arms (a + 1) = []) := by
  rw [exits, mem_distinct]
  cases armsExits arms (a + 1) <;> simp

/-! ### Pieces lie inside and apart -/

/-- How many blocks stand behind the arms of an outline. -/
def tail : Outline → Nat
  | .function _ (some _) => 1
  | _ => 0

/-- The pieces of an outline are its arms, behind a header and in front of
its tail. -/
structure Headed (outline : Outline) : Prop where
  pieces : ∀ a, outline.pieces a = placed outline.arms (a + 1)
  size : outline.size = 1 + armsSize outline.arms + outline.tail

/-- An outline is one thing after another, or it has a header. -/
theorem sequel_or_headed (outline : Outline) :
    (∃ first second, outline = .sequel first second) ∨ outline.Headed := by
  cases outline with
  | sequel first second => exact .inl ⟨first, second, rfl⟩
  | statement _ => exact .inr ⟨fun _ => rfl, rfl⟩
  | terminator _ => exact .inr ⟨fun _ => rfl, rfl⟩
  | branch _ _ body alternative =>
    refine .inr ⟨fun _ => rfl, ?_⟩
    simp only [Outline.size, arms, armsSize_append, armsSize_side, tail]
    omega
  | loop _ body =>
    refine .inr ⟨fun _ => rfl, ?_⟩
    simp only [Outline.size, arms, armsSize_side, tail, Nat.add_zero]
  | choice _ arms => exact .inr ⟨fun _ => rfl, rfl⟩
  | function _ body =>
    refine .inr ⟨fun _ => rfl, ?_⟩
    cases body with
    | none => rfl
    | some body => simp [Outline.size, arms, side, armsSize, tail]

section

variable {outline : Outline} {a m n : Nat} {p q : Nat × Outline}

/-- The pieces of an outline lie inside it. -/
theorem pieces_inside (h : p ∈ outline.pieces a) :
    a ≤ p.1 ∧ p.1 + p.2.size ≤ a + outline.size := by
  rcases outline.sequel_or_headed with ⟨first, second, rfl⟩ | headed
  · simp only [pieces, List.mem_cons, List.not_mem_nil, or_false] at h
    rcases h with rfl | rfl <;> simp only [size] <;> omega
  · rw [headed.pieces] at h
    have := placed_inside h
    rw [headed.size]
    omega

/-- The pieces of an outline lie apart from each other. -/
theorem pieces_apart (hp : p ∈ outline.pieces a) (hq : q ∈ outline.pieces a) :
    p = q ∨ p.1 + p.2.size ≤ q.1 ∨ q.1 + q.2.size ≤ p.1 := by
  rcases outline.sequel_or_headed with ⟨first, second, rfl⟩ | headed
  · simp only [pieces, List.mem_cons, List.not_mem_nil, or_false] at hp hq
    rcases hp with rfl | rfl <;> rcases hq with rfl | rfl <;> simp
  · rw [headed.pieces] at hp hq
    exact placed_apart hp hq

/-- The header of an outline lies in front of its pieces. -/
theorem Headed.bare_header (headed : outline.Headed) (a : Nat) : outline.Bare a a := by
  refine ⟨outline.covers_first a, fun p hp => ?_⟩
  rw [headed.pieces] at hp
  have := placed_inside hp
  unfold Covers
  omega

/-- The tail of an outline lies behind its pieces. -/
theorem Headed.bare_tail (headed : outline.Headed) (htail : outline.tail = 1) (a : Nat) :
    outline.Bare a (a + 1 + armsSize outline.arms) := by
  refine ⟨?_, fun p hp => ?_⟩
  · unfold Covers
    rw [headed.size, htail]
    omega
  · rw [headed.pieces] at hp
    have := placed_inside hp
    unfold Covers
    omega

/-- How an edge of an outline lies to its pieces. -/
inductive Edging (outline : Outline) (a m n : Nat) : Prop where
  /-- It belongs to a piece. -/
  | within (p : Nat × Outline) (hp : p ∈ outline.pieces a) (h : Joined (p.2.edges p.1) m n)
  /-- It leads from a bare block into a piece. -/
  | enter (p : Nat × Outline) (hp : p ∈ outline.pieces a) (hm : outline.Bare a m) (hn : n = p.1)
  /-- It leads out of a piece to a bare block. -/
  | leave (p : Nat × Outline) (hp : p ∈ outline.pieces a) (hm : m ∈ p.2.exits p.1)
    (hn : outline.Bare a n)
  /-- It leads from one piece into another one. -/
  | across (p q : Nat × Outline) (hp : p ∈ outline.pieces a) (hq : q ∈ outline.pieces a)
    (hpq : p.1 + p.2.size ≤ q.1) (hm : m ∈ p.2.exits p.1) (hn : n = q.1)

/-- An edge among the arms belongs to a piece or leads from the header into one.
-/
theorem Headed.edging (headed : outline.Headed)
    (h : Joined (armsEdges a outline.arms (a + 1)) m n) : outline.Edging a m n := by
  obtain ⟨p, hp, h⟩ := joined_armsEdges.1 h
  rw [← headed.pieces] at hp
  rcases h with h | ⟨rfl, rfl⟩
  · exact .within p hp h
  · exact .enter p hp (headed.bare_header a) rfl

/-- An edge from an exit of an arm to a bare block leads out of a piece. -/
theorem Headed.edging_of_exits (headed : outline.Headed)
    (h : m ∈ armsExits outline.arms (a + 1)) (hn : outline.Bare a n) : outline.Edging a m n := by
  obtain ⟨p, hp, h⟩ := mem_armsExits.1 h
  rw [← headed.pieces] at hp
  exact .leave p hp h hn

/-- Every edge of an outline belongs to a piece or joins pieces and bare
blocks. -/
theorem edging (h : Joined (outline.edges a) m n) : outline.Edging a m n := by
  rcases outline.sequel_or_headed with ⟨first, second, rfl⟩ | headed
  · have hfirst : (a, first) ∈ (Outline.sequel first second).pieces a := List.mem_cons_self
    have hsecond : (a + first.size, second) ∈ (Outline.sequel first second).pieces a :=
      List.mem_cons_of_mem _ List.mem_cons_self
    simp only [edges, joined_append, joined_joins] at h
    rcases h with (h | h) | ⟨hm, hn⟩
    · exact .within _ hfirst h
    · exact .within _ hsecond h
    · exact .across _ _ hfirst hsecond (Nat.le_refl _) hm hn
  · cases outline with
    | statement _ => simp [edges] at h
    | terminator _ => simp [edges] at h
    | sequel first second => simpa [pieces, arms, placed] using headed.pieces a
    | branch _ _ body alternative =>
      rw [edges_branch] at h
      exact headed.edging h
    -- The exits of the body of a loop lead back to its header.
    | loop _ body =>
      rw [edges_loop, joined_append, joined_joins] at h
      rcases h with h | ⟨hm, rfl⟩
      · exact headed.edging h
      · exact headed.edging_of_exits hm (headed.bare_header _)
    | choice _ arms =>
      rw [edges] at h
      exact headed.edging h
    -- Those of the body of a function lead to the block that ends it.
    | function _ body =>
      rcases (joined_function _ body a m n).1 h with h | ⟨hm, rfl⟩
      · exact headed.edging h
      · cases body with
        | none => simp [side, armsExits] at hm
        | some body =>
          have hbare := headed.bare_tail rfl a
          rw [arms, armsSize_side] at hbare
          exact headed.edging_of_exits hm hbare

/-- Every exit of an outline is an exit of a piece or bare. -/
theorem exits_cases (h : n ∈ outline.exits a) :
    (∃ p ∈ outline.pieces a, n ∈ p.2.exits p.1) ∨ outline.Bare a n := by
  rcases outline.sequel_or_headed with ⟨first, second, rfl⟩ | headed
  · exact .inl ⟨(a + first.size, second), List.mem_cons_of_mem _ List.mem_cons_self, h⟩
  · have hheader := headed.bare_header a
    have harms : n ∈ armsExits outline.arms (a + 1) →
        ∃ p ∈ outline.pieces a, n ∈ p.2.exits p.1 := by
      rw [headed.pieces]
      exact mem_armsExits.1
    cases outline with
    | statement _ => exact .inr (List.mem_singleton.1 h ▸ hheader)
    | terminator _ => cases h
    | sequel first second => simpa [pieces, arms, placed] using headed.pieces a
    -- The header is an exit where a part of the branch is missing.
    | branch _ _ body alternative =>
      rcases (mem_exits_branch _ _ body alternative a n).1 h with h | ⟨rfl, _⟩
      · exact .inl (harms h)
      · exact .inr hheader
    | loop _ body => exact .inr (List.mem_singleton.1 h ▸ hheader)
    | choice _ arms =>
      rcases (mem_exits_choice _ arms a n).1 h with h | ⟨rfl, _⟩
      · exact .inl (harms h)
      · exact .inr hheader
    | function _ body =>
      cases body with
      | none => exact .inr (List.mem_singleton.1 h ▸ hheader)
      | some body =>
        have hbare := headed.bare_tail rfl a
        rw [arms, armsSize_side] at hbare
        exact .inr (List.mem_singleton.1 h ▸ hbare)

end

/-- What passes from the pieces of an outline to the outline holds of every
outline. -/
theorem induction_pieces {motive : Outline → Prop}
    (h : ∀ outline, (∀ a, ∀ p ∈ outline.pieces a, motive p.2) → motive outline)
    (outline : Outline) : motive outline := by
  -- The parts of a construct are its arms, and its arms are its pieces once they are placed.
  have hside : ∀ (flow : Flow) (part : Option Outline), (∀ o ∈ part, motive o) →
      ∀ arm ∈ side flow part, motive arm.2 := by
    intro flow part hpart arm harm
    obtain ⟨o, ho, rfl⟩ := Option.map_eq_some_iff.1 (Option.mem_toList.1 harm)
    exact hpart o ho
  have hplaced : ∀ (arms : List (Flow × Outline)), (∀ arm ∈ arms, motive arm.2) →
      ∀ a, ∀ p ∈ placed arms a, motive p.2 := by
    intro arms
    induction arms with
    | nil => intro _ a p hp; cases hp
    | cons arm arms ih =>
      intro harms a p hp
      rcases List.mem_cons.1 hp with rfl | hp
      · exact harms arm List.mem_cons_self
      · exact ih (fun arm h => harms arm (List.mem_cons_of_mem _ h)) _ p hp
  induction outline with
  | statement _ => exact h _ fun a p hp => nomatch hp
  | terminator _ => exact h _ fun a p hp => nomatch hp
  | sequel first second ihFirst ihSecond =>
    refine h _ fun a p hp => ?_
    simp only [pieces, List.mem_cons, List.not_mem_nil, or_false] at hp
    rcases hp with rfl | rfl
    · exact ihFirst
    · exact ihSecond
  | branch _ _ body alternative ihBody ihAlternative =>
    refine h _ fun a => hplaced _ (fun arm harm => ?_) (a + 1)
    rcases List.mem_append.1 harm with harm | harm
    · exact hside _ _ ihBody arm harm
    · exact hside _ _ ihAlternative arm harm
  | loop _ body ih => exact h _ fun a => hplaced _ (hside _ _ ih) (a + 1)
  | choice _ arms ih => exact h _ fun a => hplaced _ ih (a + 1)
  | function _ body ih => exact h _ fun a => hplaced _ (hside _ _ ih) (a + 1)

/-! ### Exits and edges stay inside -/

/-- What lies inside a piece lies inside the outline. -/
theorem covers_of_piece {outline : Outline} {a n : Nat} {p : Nat × Outline}
    (hp : p ∈ outline.pieces a) (h : p.2.Covers p.1 n) : outline.Covers a n := by
  have := pieces_inside hp
  unfold Covers at h ⊢
  omega

/-- The exits of an outline are blocks of it. -/
theorem covers_exit {outline : Outline} {a n : Nat} (h : n ∈ outline.exits a) :
    outline.Covers a n := by
  induction outline using induction_pieces generalizing a n with
  | h outline ih =>
    rcases exits_cases h with ⟨p, hp, h⟩ | hbare
    · exact covers_of_piece hp (ih a p hp h)
    · exact hbare.1

/-- The edges of an outline join blocks of it. -/
theorem covers_joined {outline : Outline} {a m n : Nat} (h : Joined (outline.edges a) m n) :
    outline.Covers a m ∧ outline.Covers a n := by
  induction outline using induction_pieces generalizing a m n with
  | h outline ih =>
    cases edging h with
    | within p hp h =>
      obtain ⟨hm, hn⟩ := ih a p hp h
      exact ⟨covers_of_piece hp hm, covers_of_piece hp hn⟩
    | enter p hp hm hn => exact ⟨hm.1, hn ▸ covers_of_piece hp (p.2.covers_first p.1)⟩
    | leave p hp hm hn => exact ⟨covers_of_piece hp (covers_exit hm), hn.1⟩
    | across p q hp hq _ hm hn =>
      exact ⟨covers_of_piece hp (covers_exit hm), hn ▸ covers_of_piece hq (q.2.covers_first q.1)⟩

/-- The blocks of an outline have the numbers inside it, and no others. -/
theorem mem_blocks_iff {outline : Outline} {a n : Nat} :
    n ∈ (outline.blocks a).map Block.number ↔ outline.Covers a n := by
  rw [number_blocks, List.mem_range'_1]
  rfl

/-- A block of an outline has a number inside it. -/
theorem covers_of_mem_blocks {outline : Outline} {a : Nat} {block : Block}
    (h : block ∈ outline.blocks a) : outline.Covers a block.number :=
  mem_blocks_iff.1 (List.mem_map_of_mem h)

/-- The header lies in none of the arms. -/
theorem header_outside_arm {arms : List (Flow × Outline)} {a : Nat} {p : Nat × Outline}
    (hp : p ∈ placed arms (a + 1)) : ¬p.2.Covers p.1 a := by
  have hinside := placed_inside hp
  unfold Covers
  omega

/-- An exit of a row of arms that lies in an arm is an exit of that arm. -/
theorem exit_of_arm {arms : List (Flow × Outline)} {a n : Nat} {p : Nat × Outline}
    (hp : p ∈ placed arms a) (hn : n ∈ armsExits arms a) (hcovers : p.2.Covers p.1 n) :
    n ∈ p.2.exits p.1 := by
  obtain ⟨q, hq, hn⟩ := mem_armsExits.1 hn
  have hqcovers := covers_exit hn
  -- Arms that share a block are the same.
  rcases placed_apart hp hq with rfl | hapart | hapart
  · exact hn
  all_goals
    unfold Covers at hcovers hqcovers
    omega

/-- An outline does not list an exit twice. -/
theorem nodup_exits (outline : Outline) (a : Nat) : (outline.exits a).Nodup := by
  induction outline generalizing a with
  | statement _ => exact List.pairwise_singleton _ _
  | terminator _ => exact List.nodup_nil
  | sequel first second _ ih => exact ih _
  | branch _ _ body alternative _ _ => exact nodup_distinct _
  | loop _ body _ => exact List.pairwise_singleton _ _
  | choice _ arms _ => exact nodup_distinct _
  | function _ body _ => cases body <;> exact List.pairwise_singleton _ _

/-- A row of arms does not list an exit twice. -/
theorem nodup_armsExits (arms : List (Flow × Outline)) (a : Nat) : (armsExits arms a).Nodup := by
  induction arms generalizing a with
  | nil => exact List.nodup_nil
  | cons arm arms ih =>
    -- The exits of the first arm come before those of the arms behind it.
    refine List.nodup_append.2 ⟨nodup_exits arm.2 a, ih _, fun m hm n hn => ?_⟩
    have hm' := (covers_exit hm).2
    obtain ⟨p, hp, hn⟩ := mem_armsExits.1 hn
    have hn' := (covers_exit hn).1
    have hp' := (placed_inside hp).1
    omega

end Outline

end Flowchart.Draft
