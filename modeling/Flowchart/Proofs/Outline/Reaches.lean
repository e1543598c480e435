import Mathlib.Logic.Relation
import Flowchart.Proofs.Outline.Constructs
import Flowchart.Proofs.Outline.Outgoing

/-!
# `Flowchart.Proofs.Outline.Reaches`: control comes in and gets out

A block that its construct leads nowhere from is a terminator or an exit of
the construct. Where there are no terminators, every block of an outline is
reached from the first one, and from every block an exit is reached.

Both are proved construct by construct. A header leads into each of its arms,
and from an arm control gets to an exit of the arm. That is an exit of the
construct as well, or it leads to a block that is one.

* `nowhere_cases`: a block that its construct leads nowhere from;
* `Connected`: control gets to every block of an outline, and out of it;
* `connected`: that holds of every outline without terminators.
-/

set_option autoImplicit false

namespace Flowchart.Draft

/-- Along edges one block is reached from another. -/
abbrev Reaches (edges : List Edge) : Nat → Nat → Prop :=
  Relation.ReflTransGen (Joined edges)

namespace Outline

section

variable {outline : Outline} {a n : Nat} {p : Nat × Outline} {block : Block}

/-! ### Edges around pieces -/

/-- The edges of a piece are edges of the outline. -/
theorem joined_of_piece {m : Nat} (hp : p ∈ outline.pieces a) (h : Joined (p.2.edges p.1) m n) :
    Joined (outline.edges a) m n := by
  rcases outline.sequel_or_headed with ⟨first, second, rfl⟩ | headed
  · simp only [pieces, List.mem_cons, List.not_mem_nil, or_false] at hp
    simp only [edges, joined_append]
    rcases hp with rfl | rfl
    · exact .inl (.inl h)
    · exact .inl (.inr h)
  · rw [headed.edges_eq, joined_append]
    exact .inl (joined_armsEdges.2 ⟨p, headed.pieces a ▸ hp, .inl h⟩)

/-- A header leads into each of its pieces. -/
theorem Headed.joined_header (headed : outline.Headed) (hp : p ∈ outline.pieces a) :
    Joined (outline.edges a) a p.1 := by
  rw [headed.edges_eq, joined_append]
  exact .inl (joined_armsEdges.2 ⟨p, headed.pieces a ▸ hp, .inr ⟨rfl, rfl⟩⟩)

/-- What closes a construct leads the exits of its pieces there. -/
theorem Headed.joined_closing (headed : outline.Headed) {target : Nat} {flow : Flow}
    (hclosing : outline.closing a = some (target, flow)) (hp : p ∈ outline.pieces a)
    (hn : n ∈ p.2.exits p.1) : Joined (outline.edges a) n target := by
  rw [headed.edges_eq, joined_append, closingEdges, hclosing]
  exact .inr (joined_joins.2 ⟨mem_armsExits.2 ⟨p, headed.pieces a ▸ hp, hn⟩, rfl⟩)

/-! ### Blocks of a construct -/

/-- A block of an outline is bare or inside a piece. -/
theorem covers_cases (h : outline.Covers a n) :
    (∃ block ∈ outline.bareBlocks a, block.number = n) ∨
      ∃ p ∈ outline.pieces a, p.2.Covers p.1 n := by
  obtain ⟨block, hblock, rfl⟩ := List.mem_map.1 (mem_blocks_iff.2 h)
  rcases mem_blocks_cases hblock with hbare | ⟨p, hp, hpiece⟩
  · exact .inl ⟨block, hbare, rfl⟩
  · exact .inr ⟨p, hp, covers_of_mem_blocks hpiece⟩

/-- A construct without pieces is left from its header, if it is no
terminator. -/
theorem Headed.header_mem_exits (headed : outline.Headed) (hpieces : outline.pieces a = [])
    (hterminator : outline.category? ≠ some .terminator) : a ∈ outline.exits a := by
  rw [headed.pieces] at hpieces
  cases outline with
  | statement _ => exact List.mem_singleton_self a
  | terminator _ => exact absurd rfl hterminator
  | sequel first second =>
    exact absurd (headed.pieces a) (by simp [Outline.pieces, Outline.arms, placed])
  -- Only a body makes the header of a branch hand on to pieces.
  | branch _ _ body alternative =>
    cases body with
    | none => exact (mem_exits_branch _ _ _ _ _ _).2 (.inr ⟨rfl, .inl rfl⟩)
    | some body => cases hpieces
  | loop _ body => exact List.mem_singleton_self a
  | choice _ arms =>
    cases arms with
    | nil => exact (mem_exits_choice _ _ _ _).2 (.inr ⟨rfl, rfl⟩)
    | cons arm arms => cases hpieces
  | function _ body =>
    cases body with
    | none => exact List.mem_singleton_self a
    | some body => cases hpieces

/-- A block that its construct leads nowhere from is a terminator or an exit of
the construct. -/
theorem nowhere_cases (h : block ∈ outline.bareBlocks a)
    (hnowhere : outgoing (outline.edges a) block.number = []) :
    block.kind = .terminator ∨ block.number ∈ outline.exits a := by
  obtain ⟨headed, _⟩ := bare_of_mem_bareBlocks h
  rcases number_cases h with hnumber | ⟨flow, hclosing⟩
  -- A header that leads nowhere has no pieces.
  · rw [hnumber, headed.outgoing_header] at hnowhere
    have hpieces : outline.pieces a = [] := by
      rw [headed.pieces]
      cases harms : outline.arms with
      | nil => rfl
      | cons arm arms =>
        rw [harms] at hnowhere
        cases hnowhere
    by_cases hterminator : outline.category? = some .terminator
    · left
      cases outline with
      | terminator _ => exact congrArg Block.kind (List.mem_singleton.1 h)
      | _ => cases hterminator
    · right
      rw [hnumber]
      exact headed.header_mem_exits hpieces hterminator
  · right
    rw [(exits_of_closing hclosing).1]
    exact List.mem_singleton_self _

/-! ### Outlines without terminators -/

/-- Along edges every block of an outline is reached from the first one, and
from every block an exit is reached. -/
structure Connected (edges : List Edge) (p : Nat × Outline) : Prop where
  entered : ∀ n, p.2.Covers p.1 n → Reaches edges p.1 n
  left : ∀ n, p.2.Covers p.1 n → ∃ e ∈ p.2.exits p.1, Reaches edges n e

/-- With more edges, what was connected is connected. -/
theorem Connected.mono {edges edges' : List Edge}
    (hedges : ∀ m n, Joined edges m n → Joined edges' m n) (h : Connected edges p) :
    Connected edges' p := by
  have hreaches : ∀ m n, Reaches edges m n → Reaches edges' m n :=
    Relation.ReflTransGen.mono hedges
  refine ⟨fun n hn => hreaches _ _ (h.entered n hn), fun n hn => ?_⟩
  obtain ⟨e, he, hleft⟩ := h.left n hn
  exact ⟨e, he, hreaches _ _ hleft⟩

/-- One thing after another is connected if both are. -/
theorem connected_sequel {first second : Outline}
    (hfirst : Connected ((Outline.sequel first second).edges a) (a, first))
    (hsecond : Connected ((Outline.sequel first second).edges a) (a + first.size, second)) :
    Connected ((Outline.sequel first second).edges a) (a, .sequel first second) := by
  have hjoined : ∀ e ∈ first.exits a,
      Joined ((Outline.sequel first second).edges a) e (a + first.size) := by
    intro e he
    rw [edges, joined_append, joined_joins]
    exact .inr ⟨he, rfl⟩
  have hcases : ∀ n, (Outline.sequel first second).Covers a n →
      first.Covers a n ∨ second.Covers (a + first.size) n := by
    intro n hn
    simp only [Covers, size] at hn ⊢
    omega
  constructor
  · intro n hn
    rcases hcases n hn with hn | hn
    · exact hfirst.entered n hn
    -- From the first block, through an exit of the first thing.
    · obtain ⟨e, he, hreaches⟩ := hfirst.left a (first.covers_first a)
      exact (hreaches.tail (hjoined e he)).trans (hsecond.entered n hn)
  · intro n hn
    rcases hcases n hn with hn | hn
    · obtain ⟨e, he, hreaches⟩ := hfirst.left n hn
      obtain ⟨e', he', hreaches'⟩ := hsecond.left _ (second.covers_first (a + first.size))
      exact ⟨e', he', (hreaches.tail (hjoined e he)).trans hreaches'⟩
    · exact hsecond.left n hn

/-- From a piece of a construct control gets out of the construct. -/
theorem Headed.left_piece (headed : outline.Headed) (hp : p ∈ outline.pieces a)
    (h : Connected (outline.edges a) p) (hn : p.2.Covers p.1 n) :
    ∃ e ∈ outline.exits a, Reaches (outline.edges a) n e := by
  obtain ⟨e, he, hreaches⟩ := h.left n hn
  cases hclosing : outline.closing a with
  | none => exact ⟨e, (headed.mem_exits_of_open hclosing hp (covers_exit he)).2 he, hreaches⟩
  | some closing =>
    obtain ⟨target, flow⟩ := closing
    obtain ⟨hexits, _, _⟩ := exits_of_closing hclosing
    refine ⟨target, ?_, hreaches.tail (headed.joined_closing hclosing hp he)⟩
    rw [hexits]
    exact List.mem_singleton_self target

/-- A construct that is no terminator is connected if its pieces are. -/
theorem Headed.connected (headed : outline.Headed)
    (hterminator : outline.category? ≠ some .terminator)
    (hpieces : ∀ p ∈ outline.pieces a, Connected (outline.edges a) p) :
    Connected (outline.edges a) (a, outline) := by
  -- The header is left through the first piece, if there is one.
  have hheader : ∃ e ∈ outline.exits a, Reaches (outline.edges a) a e := by
    cases hplaced : outline.pieces a with
    | nil => exact ⟨a, headed.header_mem_exits hplaced hterminator, .refl⟩
    | cons p rest =>
      have hp : p ∈ outline.pieces a := hplaced ▸ List.mem_cons_self
      obtain ⟨e, he, hreaches⟩ := headed.left_piece hp (hpieces p hp) (p.2.covers_first p.1)
      exact ⟨e, he, hreaches.head (headed.joined_header hp)⟩
  have hbare : ∀ block ∈ outline.bareBlocks a, Reaches (outline.edges a) a block.number ∧
      ∃ e ∈ outline.exits a, Reaches (outline.edges a) block.number e := by
    intro block hblock
    rcases number_cases hblock with hnumber | ⟨flow, hclosing⟩
    · rw [hnumber]
      exact ⟨.refl, hheader⟩
    -- The end of a construct is its only exit, so it is where the header is left to.
    · obtain ⟨hexits, _, _⟩ := exits_of_closing hclosing
      obtain ⟨e, he, hreaches⟩ := hheader
      obtain rfl := List.mem_singleton.1 (hexits ▸ he)
      exact ⟨hreaches, _, he, .refl⟩
  constructor
  · intro n hn
    rcases covers_cases hn with ⟨block, hblock, rfl⟩ | ⟨p, hp, hn⟩
    · exact (hbare block hblock).1
    · exact ((hpieces p hp).entered n hn).head (headed.joined_header hp)
  · intro n hn
    rcases covers_cases hn with ⟨block, hblock, rfl⟩ | ⟨p, hp, hn⟩
    · exact (hbare block hblock).2
    · exact headed.left_piece hp (hpieces p hp) hn

/-- An outline without terminators is connected. -/
theorem connected (outline : Outline) (a : Nat)
    (h : ∀ p, Within (a, outline) p → p.2.category? ≠ some .terminator) :
    Connected (outline.edges a) (a, outline) := by
  induction outline using induction_pieces generalizing a with
  | h outline ih =>
    have hpieces : ∀ p ∈ outline.pieces a, Connected (outline.edges a) p := by
      intro p hp
      have hp' := ih a p hp p.1 fun q hq => h q (hq.head hp)
      exact hp'.mono fun m n => joined_of_piece hp
    rcases outline.sequel_or_headed with ⟨first, second, rfl⟩ | headed
    · exact connected_sequel (hpieces _ List.mem_cons_self)
        (hpieces _ (List.mem_cons_of_mem _ List.mem_cons_self))
    · exact headed.connected (h _ .whole) hpieces

end

end Outline

end Flowchart.Draft
