import Flowchart.Proofs.Outline.Order

/-!
# `Flowchart.Proofs.Outline.Outgoing`: the ways out of a block

A construct draws the edges out of its header, and hands its open exits to
what is around it. Whoever takes an exit draws one edge from it and does not
hand it on, or hands it on and draws nothing. So out of any block there are
the edges that its own construct draws, and at most one more.

No two of these edges lead to the same block: those of the construct lead to
different blocks inside it, and the last one leads out of it. And none leads
back to the block itself.

* `outgoing`: the edges out of a block;
* `bareBlocks`: the blocks that a construct makes itself;
* `Continues`: what is drawn around a construct for one of its blocks;
* `length_branch_le`, `armsExits_eq_nil`: that around a branch and a choice;
* `Stands`, `exists_stands`: a block, its construct and its outgoing edges;
* `exists_entry`: the edges that lead into parts;
* `nodup_targets`, `ne_of_joined`: no edge twice, and none to itself.
-/

set_option autoImplicit false

namespace Flowchart.Draft

/-! ### Selecting edges by their source -/

/-- The edges out of a block, in the order in which they are drawn. -/
def outgoing (edges : List Edge) (n : Nat) : List Edge :=
  edges.filter fun edge => edge.source = n

section

variable {edges edges' : List Edge} {edge : Edge} {sources : List Nat} {target n : Nat}
  {flow : Flow}

/-- Where there are no edges, none goes out. -/
@[simp]
theorem outgoing_nil (n : Nat) : outgoing [] n = [] := rfl

/-- The edges out of a block in two rows, one behind the other. -/
@[simp]
theorem outgoing_append :
    outgoing (edges ++ edges') n = outgoing edges n ++ outgoing edges' n :=
  List.filter_append ..

/-- An edge goes out of its source. -/
theorem outgoing_cons_self :
    outgoing (edge :: edges) edge.source = edge :: outgoing edges edge.source :=
  List.filter_cons_of_pos (by simp)

/-- An edge does not go out of any other block. -/
theorem outgoing_cons_of_ne (h : edge.source ≠ n) : outgoing (edge :: edges) n = outgoing edges n :=
  List.filter_cons_of_neg (by simpa using h)

/-- The edges out of a block are those that have it as their source. -/
theorem mem_outgoing : edge ∈ outgoing edges n ↔ edge ∈ edges ∧ edge.source = n := by
  simp [outgoing]

/-- A block that is the source of no edge has none going out. -/
theorem outgoing_eq_nil (h : ∀ edge ∈ edges, edge.source ≠ n) : outgoing edges n = [] :=
  List.filter_eq_nil_iff.2 (by simpa using h)

/-- Of the edges from several blocks to one, only one starts at each of the
blocks. -/
theorem outgoing_joins (h : sources.Nodup) :
    outgoing (joins sources target flow) n = if n ∈ sources then [⟨n, target, flow⟩] else [] := by
  induction sources with
  | nil => rfl
  | cons source sources ih =>
    obtain ⟨hsource, hsources⟩ := List.nodup_cons.1 h
    have ih := ih hsources
    show outgoing (⟨source, target, flow⟩ :: joins sources target flow) n = _
    by_cases hn : source = n
    · subst hn
      have hfirst : outgoing (⟨source, target, flow⟩ :: joins sources target flow) source =
          ⟨source, target, flow⟩ :: outgoing (joins sources target flow) source :=
        outgoing_cons_self
      rw [hfirst, ih, if_neg hsource, if_pos List.mem_cons_self]
    · rw [outgoing_cons_of_ne hn, ih]
      simp [Ne.symm hn]

end

namespace Outline

/-- Where a construct leads the exits of its parts to, if it does that
itself. -/
def closing : Outline → Nat → Option (Nat × Flow)
  | .loop _ _, a => some (a, .next)
  | .function _ (some body), a => some (a + 1 + body.size, .onward)
  | _, _ => none

/-- The edges that close a construct. -/
def closingEdges (outline : Outline) (a : Nat) : List Edge :=
  (outline.closing a).elim [] fun (target, flow) =>
    joins (armsExits outline.arms (a + 1)) target flow

/-- The edges from a header into its arms. -/
def entries (header : Nat) : List (Flow × Outline) → Nat → List Edge
  | [], _ => []
  | (flow, arm) :: arms, a => ⟨header, a, flow⟩ :: entries header arms (a + arm.size)

section

variable {outline : Outline} {arms : List (Flow × Outline)} {a n header : Nat} {p : Nat × Outline}

/-- What is not in an outline has no edges there. -/
theorem outgoing_of_not_covers (h : ¬outline.Covers a n) : outgoing (outline.edges a) n = [] := by
  refine outgoing_eq_nil fun edge hedge hsource => h ?_
  exact hsource ▸ (covers_joined ⟨edge, hedge, rfl, rfl⟩).1

/-! ### Rows of arms -/

/-- In a row of arms, the edges out of the header are those into the arms. -/
theorem outgoing_armsEdges_header (h : header < a) :
    outgoing (armsEdges header arms a) header = entries header arms a := by
  induction arms generalizing a with
  | nil => rfl
  | cons arm arms ih =>
    have hout : ¬arm.2.Covers a header := by
      unfold Covers
      omega
    have hrest := ih (a := a + arm.2.size) (by omega)
    have hentry : outgoing (⟨header, a, arm.1⟩ :: armsEdges header arms (a + arm.2.size)) header =
        ⟨header, a, arm.1⟩ :: outgoing (armsEdges header arms (a + arm.2.size)) header :=
      outgoing_cons_self
    rw [armsEdges, outgoing_append, outgoing_of_not_covers hout, List.nil_append, hentry, hrest]
    rfl

/-- The edges of a row out of a block of an arm are those of the arm. -/
theorem outgoing_armsEdges_arm (h : header < a) (hp : p ∈ placed arms a) (hn : p.2.Covers p.1 n) :
    outgoing (armsEdges header arms a) n = outgoing (p.2.edges p.1) n := by
  induction arms generalizing a with
  | nil => cases hp
  | cons arm arms ih =>
    have hinside := placed_inside hp
    have hheader : header ≠ n := by
      unfold Covers at hn
      omega
    rw [armsEdges, outgoing_append, outgoing_cons_of_ne hheader]
    rcases List.mem_cons.1 hp with rfl | hp
    -- Behind the first arm there are only edges of other arms.
    · have hrest : outgoing (armsEdges header arms (a + arm.2.size)) n = [] := by
        refine outgoing_eq_nil fun edge hedge hsource => ?_
        rcases mem_armsEdges hedge with ⟨q, hq, hedge⟩ | ⟨hsource', _⟩
        · have hq' := placed_inside hq
          have hcovers := (covers_joined ⟨edge, hedge, rfl, rfl⟩).1
          simp only [Covers] at hcovers hn
          omega
        · exact hheader (hsource'.symm.trans hsource)
      rw [hrest, List.append_nil]
    · have hp' := placed_inside hp
      rw [ih (by omega) hp, outgoing_of_not_covers, List.nil_append]
      unfold Covers at hn ⊢
      omega

/-! ### Edges that close a construct -/

/-- The edges of a construct are those of its arms with the ways into them,
and those that close it. -/
theorem Headed.edges_eq (headed : outline.Headed) :
    outline.edges a = armsEdges a outline.arms (a + 1) ++ outline.closingEdges a := by
  cases outline with
  | statement _ => rfl
  | terminator _ => rfl
  | sequel first second =>
    exact absurd (headed.pieces a) (by simp [Outline.pieces, Outline.arms, placed])
  | branch _ _ body alternative =>
    rw [edges_branch]
    exact (List.append_nil _).symm
  | loop _ body => exact edges_loop _ body a
  | choice _ arms => exact (List.append_nil _).symm
  | function _ body =>
    cases body with
    | none => rfl
    | some body => simp [edges, Outline.arms, side, armsEdges, armsExits, closingEdges, closing]

/-- What closes a construct leads its exits to one of its own blocks, which
is then the only exit. -/
theorem exits_of_closing {target : Nat} {flow : Flow}
    (h : outline.closing a = some (target, flow)) :
    outline.exits a = [target] ∧ outline.Bare a target ∧ (flow = .onward ∨ flow = .next) := by
  rcases outline.sequel_or_headed with ⟨first, second, rfl⟩ | headed
  · cases h
  -- Only loops and functions take their exits back.
  · cases outline with
    | loop _ body =>
      cases h
      exact ⟨rfl, headed.bare_header a, .inr rfl⟩
    | function _ body =>
      cases body with
      | none => cases h
      | some body =>
        cases h
        have hbare := headed.bare_tail rfl a
        rw [Outline.arms, armsSize_side] at hbare
        exact ⟨rfl, hbare, .inl rfl⟩
    | _ => cases h

/-- A construct that is not closed hands on the exits of its pieces. -/
theorem Headed.mem_exits_of_open (headed : outline.Headed) (h : outline.closing a = none)
    (hp : p ∈ outline.pieces a) (hn : p.2.Covers p.1 n) :
    n ∈ outline.exits a ↔ n ∈ p.2.exits p.1 := by
  rw [headed.pieces] at hp
  have hheader := header_outside_arm hp
  -- The arms do not overlap, so an exit of any arm that lies in this piece is one of the piece.
  have hexits : n ∈ armsExits outline.arms (a + 1) ↔ n ∈ p.2.exits p.1 :=
    ⟨fun h => exit_of_arm hp h hn, fun h => mem_armsExits.2 ⟨p, hp, h⟩⟩
  have hne : n ≠ a := fun heq => hheader (heq ▸ hn)
  cases outline with
  | statement _ => cases hp
  | terminator _ => cases hp
  | sequel first second => cases hp
  | branch _ _ body alternative =>
    rw [← hexits, mem_exits_branch]
    exact or_iff_left fun h => hne h.1
  | loop _ body => cases h
  | choice _ arms =>
    rw [← hexits, mem_exits_choice]
    exact or_iff_left fun h => hne h.1
  | function _ body =>
    cases body with
    | none => cases hp
    | some body => cases h

end

/-! ### Around a construct -/

/-- What is drawn around an outline, inside another one, for one of its
blocks. -/
inductive Continues (outer p : Nat × Outline) (n : Nat) : List Edge → Prop where
  /-- Nothing, and if the block is an exit it is handed on. -/
  | kept (h : n ∈ outer.2.exits outer.1 ↔ n ∈ p.2.exits p.1) : Continues outer p n []
  /-- The block is an exit. It is led out of the outline, and is not handed
  on. -/
  | led (target : Nat) (flow : Flow) (hexit : n ∈ p.2.exits p.1)
    (htaken : n ∉ outer.2.exits outer.1) (houtside : ¬p.2.Covers p.1 target)
    (hflow : flow = .onward ∨ flow = .next) : Continues outer p n [⟨n, target, flow⟩]

namespace Continues

variable {outer p q : Nat × Outline} {n : Nat} {led led' : List Edge}

/-- One edge at most is drawn around a construct for a block. -/
theorem length_le (h : Continues outer p n led) : led.length ≤ 1 := by
  cases h with
  | kept _ => exact Nat.zero_le 1
  | led _ _ _ _ _ _ => exact Nat.le_refl 1

/-- Nothing is drawn from what is no exit. -/
theorem eq_nil (h : Continues outer p n led) (hn : n ∉ p.2.exits p.1) : led = [] := by
  cases h with
  | kept _ => rfl
  | led _ _ hexit _ _ _ => exact absurd hexit hn

/-- An exit is handed on where nothing is drawn from it. -/
theorem mem_exits (h : Continues outer p n led) (hled : led = []) (hn : n ∈ p.2.exits p.1) :
    n ∈ outer.2.exits outer.1 := by
  cases h with
  | kept h => exact h.2 hn
  | led _ _ _ _ _ _ => cases hled

/-- What is drawn around a construct goes on, or back to the header of a loop.
-/
theorem flow (h : Continues outer p n led) {edge : Edge} (hedge : edge ∈ led) :
    edge.flow = .onward ∨ edge.flow = .next := by
  cases h with
  | kept _ => cases hedge
  | led _ _ _ _ _ hflow =>
    rw [List.mem_singleton.1 hedge]
    exact hflow

/-- What is drawn around a construct leads out of it. -/
theorem outside (h : Continues outer p n led) {edge : Edge} (hedge : edge ∈ led) :
    ¬p.2.Covers p.1 edge.target := by
  cases h with
  | kept _ => cases hedge
  | led _ _ _ _ houtside _ =>
    rw [List.mem_singleton.1 hedge]
    exact houtside

/-- An exit is taken once, whoever takes it. -/
theorem trans (h : Continues outer p n led) (h' : Continues p q n led') (hq : q ∈ p.2.pieces p.1) :
    Continues outer q n (led' ++ led) := by
  cases h' with
  | kept h' =>
    cases h with
    | kept h => exact .kept (h.trans h')
    | led target flow hexit htaken houtside hflow =>
      exact .led target flow (h'.1 hexit) htaken (fun h => houtside (covers_of_piece hq h)) hflow
  | led target flow hexit htaken houtside hflow =>
    cases h with
    | kept h => exact .led target flow hexit (fun h' => htaken (h.1 h')) houtside hflow
    | led _ _ hexit' _ _ _ => exact absurd hexit' htaken

end Continues

section

variable {outline : Outline} {a n : Nat} {p : Nat × Outline}

/-- Out of a block in a piece go the edges of the piece, and then what is drawn
around it. -/
theorem Headed.outgoing_piece (headed : outline.Headed) (hp : p ∈ outline.pieces a)
    (hn : p.2.Covers p.1 n) :
    ∃ led, outgoing (outline.edges a) n = outgoing (p.2.edges p.1) n ++ led ∧
      Continues (a, outline) p n led := by
  have hplaced := headed.pieces a ▸ hp
  rw [headed.edges_eq, outgoing_append, outgoing_armsEdges_arm (Nat.lt_succ_self a) hplaced hn]
  refine ⟨_, rfl, ?_⟩
  unfold closingEdges
  cases hclosing : outline.closing a with
  | none => exact .kept (headed.mem_exits_of_open hclosing hp hn)
  | some closing =>
    obtain ⟨target, flow⟩ := closing
    obtain ⟨hexits, hbare, hflow⟩ := exits_of_closing hclosing
    have houtside := hbare.2 p hp
    have htaken : n ∉ outline.exits a := by
      rw [hexits, List.mem_singleton]
      exact fun heq => houtside (heq ▸ hn)
    rw [Option.elim_some, outgoing_joins (nodup_armsExits _ _)]
    -- A closed construct leads the exits of its arms on and keeps the other blocks.
    by_cases hexit : n ∈ armsExits outline.arms (a + 1)
    · rw [if_pos hexit]
      exact .led target flow (exit_of_arm hplaced hexit hn) htaken houtside hflow
    · rw [if_neg hexit]
      refine .kept (iff_of_false htaken fun h => hexit ?_)
      exact mem_armsExits.2 ⟨p, hplaced, h⟩

/-- Out of a block of a piece lead the edges of the piece, and one more if the
block is an exit that the outline takes. -/
theorem outgoing_piece (hp : p ∈ outline.pieces a) (hn : p.2.Covers p.1 n) :
    ∃ led, outgoing (outline.edges a) n = outgoing (p.2.edges p.1) n ++ led ∧
      Continues (a, outline) p n led := by
  rcases outline.sequel_or_headed with ⟨first, second, rfl⟩ | headed
  · have hjoins : outgoing (joins (first.exits a) (a + first.size) .onward) n =
        if n ∈ first.exits a then [⟨n, a + first.size, .onward⟩] else [] :=
      outgoing_joins (nodup_exits first a)
    simp only [edges, outgoing_append, hjoins]
    simp only [pieces, List.mem_cons, List.not_mem_nil, or_false] at hp
    rcases hp with rfl | rfl
    -- The exits of the first thing are led to the second one.
    · have hsecond : ¬second.Covers (a + first.size) n := by
        simp only [Covers] at hn ⊢
        omega
      have htaken : n ∉ second.exits (a + first.size) := fun h => hsecond (covers_exit h)
      rw [outgoing_of_not_covers hsecond, List.append_nil]
      refine ⟨_, rfl, ?_⟩
      by_cases hexit : n ∈ first.exits a
      · rw [if_pos hexit]
        refine .led _ _ hexit htaken ?_ (.inl rfl)
        simp only [Covers]
        omega
      · rw [if_neg hexit]
        exact .kept (iff_of_false htaken hexit)
    -- Those of the second one are handed on.
    · have hfirst : ¬first.Covers a n := by
        simp only [Covers] at hn ⊢
        omega
      rw [outgoing_of_not_covers hfirst, if_neg fun h => hfirst (covers_exit h)]
      exact ⟨[], rfl, .kept Iff.rfl⟩
  · exact headed.outgoing_piece hp hn

/-- Out of a block of an outline lead the edges that are drawn inside the
outline, and at most one more. -/
theorem Within.outgoing {outer p : Nat × Outline} (h : Within outer p) (hn : p.2.Covers p.1 n) :
    ∃ led, outgoing (outer.2.edges outer.1) n = outgoing (p.2.edges p.1) n ++ led ∧
      Continues outer p n led := by
  induction h with
  | whole => exact ⟨[], (List.append_nil _).symm, .kept Iff.rfl⟩
  | piece _ hq ih =>
    obtain ⟨led, houter, hcontinues⟩ := ih (covers_of_piece hq hn)
    obtain ⟨led', hpiece, hcontinues'⟩ := outgoing_piece hq hn
    refine ⟨led' ++ led, ?_, hcontinues.trans hcontinues' hq⟩
    rw [houter, hpiece, List.append_assoc]

/-! ### Blocks of their constructs -/

/-- The blocks that an outline has besides those of its pieces. -/
def bareBlocks : Outline → Nat → List Block
  | .statement origin, a => [origin.block .statement a]
  | .terminator origin, a => [origin.block .terminator a]
  | .sequel _ _, _ => []
  | .branch origin _ _ _, a => [origin.block .branch a]
  | .loop origin _, a => [origin.block .loop a]
  | .choice origin _, a => [origin.block .choice a]
  | .function origin none, a => [origin.block .entry a]
  | .function origin (some body), a => [origin.block .entry a, origin.last (a + 1 + body.size)]

/-- A block of a row of arms belongs to one of the arms. -/
theorem mem_armsBlocks {arms : List (Flow × Outline)} {block : Block}
    (h : block ∈ armsBlocks arms a) : ∃ p ∈ placed arms a, block ∈ p.2.blocks p.1 := by
  induction arms generalizing a with
  | nil => cases h
  | cons arm arms ih =>
    rcases List.mem_append.1 h with h | h
    · exact ⟨_, List.mem_cons_self, h⟩
    · obtain ⟨p, hp, h⟩ := ih h
      exact ⟨p, List.mem_cons_of_mem _ hp, h⟩

/-- A row of one part has the blocks of the part. -/
theorem armsBlocks_side (flow : Flow) (part : Option Outline) (a : Nat) :
    armsBlocks (side flow part) a = blocksIfAny part a := by
  cases part <;> simp [side, armsBlocks, blocksIfAny]

/-- Two rows in one have the blocks of both, the second row being numbered
behind the first. -/
theorem armsBlocks_append (arms arms' : List (Flow × Outline)) (a : Nat) :
    armsBlocks (arms ++ arms') a = armsBlocks arms a ++ armsBlocks arms' (a + armsSize arms) := by
  induction arms generalizing a with
  | nil => simp [armsBlocks, armsSize]
  | cons arm arms ih => simp [armsBlocks, armsSize, ih, Nat.add_assoc]

/-- The blocks of a construct are its own and those of its arms. -/
theorem Headed.mem_blocks (headed : outline.Headed) {block : Block}
    (h : block ∈ outline.blocks a) :
    block ∈ outline.bareBlocks a ∨ block ∈ armsBlocks outline.arms (a + 1) := by
  cases outline with
  | statement _ => exact .inl h
  | terminator _ => exact .inl h
  | sequel first second =>
    exact absurd (headed.pieces a) (by simp [Outline.pieces, Outline.arms, placed])
  | branch _ _ body alternative =>
    rw [Outline.arms, armsBlocks_append, armsBlocks_side, armsBlocks_side, armsSize_side]
    rcases List.mem_cons.1 h with rfl | h
    · exact .inl List.mem_cons_self
    · exact .inr h
  | loop _ body =>
    rw [Outline.arms, armsBlocks_side]
    rcases List.mem_cons.1 h with rfl | h
    · exact .inl List.mem_cons_self
    · exact .inr h
  | choice _ arms =>
    rcases List.mem_cons.1 h with rfl | h
    · exact .inl List.mem_cons_self
    · exact .inr h
  | function _ body =>
    cases body with
    | none => exact .inl h
    | some body =>
      -- The last block of a function is its own and stands behind those of the body.
      rw [Outline.arms, armsBlocks_side]
      simp only [blocks, List.mem_cons, List.mem_append, List.not_mem_nil, or_false] at h
      simp only [bareBlocks, List.mem_cons, List.not_mem_nil, or_false, blocksIfAny]
      rcases h with h | h | h
      · exact .inl (.inl h)
      · exact .inr h
      · exact .inl (.inr h)

/-- A block of an outline is bare or belongs to a piece. -/
theorem mem_blocks_cases {block : Block} (h : block ∈ outline.blocks a) :
    block ∈ outline.bareBlocks a ∨ ∃ p ∈ outline.pieces a, block ∈ p.2.blocks p.1 := by
  rcases outline.sequel_or_headed with ⟨first, second, rfl⟩ | headed
  · right
    rcases List.mem_append.1 h with h | h
    · exact ⟨_, List.mem_cons_self, h⟩
    · exact ⟨_, List.mem_cons_of_mem _ List.mem_cons_self, h⟩
  · refine (headed.mem_blocks h).imp_right fun h => ?_
    rw [headed.pieces]
    exact mem_armsBlocks h

/-- Every block of an outline is one of some construct inside it. -/
theorem exists_within {block : Block} (h : block ∈ outline.blocks a) :
    ∃ p, Within (a, outline) p ∧ block ∈ p.2.bareBlocks p.1 := by
  induction outline using induction_pieces generalizing a with
  | h outline ih =>
    rcases mem_blocks_cases h with h | ⟨p, hp, h⟩
    · exact ⟨_, .whole, h⟩
    · obtain ⟨q, hq, h⟩ := ih a p hp h
      exact ⟨q, hq.head hp, h⟩

/-- A block of a construct is its header, or the exits of its pieces are led
to it. -/
theorem number_cases {block : Block} (h : block ∈ outline.bareBlocks a) :
    block.number = a ∨ ∃ flow, outline.closing a = some (block.number, flow) := by
  cases outline with
  | sequel _ _ => cases h
  | function _ body =>
    cases body with
    | none => exact .inl (congrArg Block.number (List.mem_singleton.1 h))
    | some body =>
      rcases List.mem_cons.1 h with rfl | h
      · exact .inl rfl
      · rw [List.mem_singleton.1 h]
        exact .inr ⟨.onward, rfl⟩
  | _ => exact .inl (congrArg Block.number (List.mem_singleton.1 h))

/-- The blocks of a construct lie in none of its pieces. -/
theorem bare_of_mem_bareBlocks {block : Block} (h : block ∈ outline.bareBlocks a) :
    outline.Headed ∧ outline.Bare a block.number := by
  rcases outline.sequel_or_headed with ⟨first, second, rfl⟩ | headed
  · cases h
  · refine ⟨headed, ?_⟩
    rcases number_cases h with hnumber | ⟨flow, hclosing⟩
    · rw [hnumber]
      exact headed.bare_header a
    · exact (exits_of_closing hclosing).2.1

/-! ### What a construct draws -/

/-- Nothing closes a construct from a block of its own. -/
theorem outgoing_closingEdges (headed : outline.Headed) (h : outline.Bare a n) :
    outgoing (outline.closingEdges a) n = [] := by
  refine outgoing_eq_nil fun edge hedge hsource => ?_
  unfold closingEdges at hedge
  cases hclosing : outline.closing a with
  | none =>
    rw [hclosing] at hedge
    cases hedge
  | some closing =>
    rw [hclosing] at hedge
    obtain ⟨p, hp, hexit⟩ := mem_armsExits.1 (mem_joins.1 hedge).1
    exact h.2 p (headed.pieces a ▸ hp) (hsource ▸ covers_exit hexit)

/-- Out of the header of a construct lead the ways into its arms. -/
theorem Headed.outgoing_header (headed : outline.Headed) :
    outgoing (outline.edges a) a = entries a outline.arms (a + 1) := by
  rw [headed.edges_eq, outgoing_append, outgoing_closingEdges headed (headed.bare_header a),
    outgoing_armsEdges_header (Nat.lt_succ_self a), List.append_nil]

/-- Out of the block that ends a construct nothing leads. -/
theorem Headed.outgoing_of_ne (headed : outline.Headed) (h : outline.Bare a n) (hn : n ≠ a) :
    outgoing (outline.edges a) n = [] := by
  rw [headed.edges_eq, outgoing_append, outgoing_closingEdges headed h, List.append_nil]
  refine outgoing_eq_nil fun edge hedge hsource => ?_
  rcases mem_armsEdges hedge with ⟨p, hp, hedge⟩ | ⟨hheader, _⟩
  · have hcovers := (covers_joined ⟨edge, hedge, rfl, rfl⟩).1
    exact h.2 p (headed.pieces a ▸ hp) (hsource ▸ hcovers)
  · exact hn (hsource.symm.trans hheader)

/-! ### What is drawn behind a construct -/

section

variable {outer : Nat × Outline} {led : List Edge}

/-- A header is not among the exits of its arms. -/
theorem header_notMem_armsExits (arms : List (Flow × Outline)) (a : Nat) :
    a ∉ armsExits arms (a + 1) := by
  intro h
  obtain ⟨p, hp, hexit⟩ := mem_armsExits.1 h
  exact header_outside_arm hp (covers_exit hexit)

/-- A branch with two parts is not left from its header. -/
theorem header_notMem_exits_branch (origin : Origin) (hasAlternative : Bool)
    (body alternative : Outline) (a : Nat) :
    a ∉ (Outline.branch origin hasAlternative (some body) (some alternative)).exits a := by
  rw [mem_exits_branch]
  rintro (h | ⟨_, h | h⟩)
  · exact header_notMem_armsExits _ _ h
  · cases h
  · cases h.1

/-- The ways into the parts of a branch and the one behind it: one of the three
is missing. -/
theorem length_branch_le {origin : Origin} {hasAlternative : Bool}
    {body alternative : Option Outline}
    (h : Continues outer (a, .branch origin hasAlternative body alternative) a led) :
    (entries a (side .whenTrue body ++ side .whenFalse alternative) (a + 1)).length + led.length ≤
      2 := by
  have hled := h.length_le
  cases body with
  | none => cases alternative <;> simp [side, entries] <;> omega
  | some body =>
    cases alternative with
    | none =>
      simp [side, entries]
      omega
    -- With both sides the header is no exit, so that nothing is drawn around it.
    | some alternative =>
      rw [h.eq_nil (header_notMem_exits_branch origin hasAlternative body alternative a)]
      simp [side, entries]

/-- Where something is drawn behind a choice, no arm of it has an exit. -/
theorem armsExits_eq_nil {origin : Origin} {arms : List (Flow × Outline)}
    (h : Continues outer (a, .choice origin arms) a led) (hled : led ≠ []) :
    armsExits arms (a + 1) = [] := by
  have hexit : a ∈ (Outline.choice origin arms).exits a :=
    Decidable.byContradiction fun hexit => hled (h.eq_nil hexit)
  rcases (mem_exits_choice origin arms a a).1 hexit with hexit | ⟨_, hnone⟩
  · exact absurd hexit (header_notMem_armsExits arms a)
  · exact hnone

end

/-! ### A block and its construct -/

/-- A block of an outline, the construct that it belongs to, and what is drawn
from it around that construct. -/
structure Stands (whole : Nat × Outline) (block : Block) (p : Nat × Outline) (led : List Edge) :
    Prop where
  within : Within whole p
  bare : block ∈ p.2.bareBlocks p.1
  outgoing : outgoing (whole.2.edges whole.1) block.number =
    outgoing (p.2.edges p.1) block.number ++ led
  continues : Continues whole p block.number led

/-- Every block of an outline belongs to a construct in it. -/
theorem exists_stands {block : Block} (h : block ∈ outline.blocks a) :
    ∃ p led, Stands (a, outline) block p led := by
  obtain ⟨p, hwithin, hbare⟩ := exists_within h
  obtain ⟨led, houtgoing, hcontinues⟩ := hwithin.outgoing (bare_of_mem_bareBlocks hbare).2.1
  exact ⟨p, led, hwithin, hbare, houtgoing, hcontinues⟩

/-- The ways into the arms of a construct are edges of any outline around it. -/
theorem Within.mem_edges {outer p : Nat × Outline} (h : Within outer p) (headed : p.2.Headed)
    {edge : Edge} (hedge : edge ∈ entries p.1 p.2.arms (p.1 + 1)) :
    edge ∈ outer.2.edges outer.1 := by
  obtain ⟨led, houtgoing, _⟩ := h.outgoing (p.2.covers_first p.1)
  rw [headed.outgoing_header] at houtgoing
  have hmem : edge ∈ Draft.outgoing (outer.2.edges outer.1) p.1 := by
    rw [houtgoing]
    exact List.mem_append_left _ hedge
  exact (mem_outgoing.1 hmem).1

/-- An edge of an outline that leads on from nothing is a way into an arm of some
construct inside the outline. -/
theorem exists_entry {edge : Edge} (h : edge ∈ outline.edges a) (honward : edge.flow ≠ .onward)
    (hnext : edge.flow ≠ .next) :
    ∃ p, Within (a, outline) p ∧ edge ∈ entries p.1 p.2.arms (p.1 + 1) := by
  have hcovers := (covers_joined ⟨edge, h, rfl, rfl⟩).1
  obtain ⟨block, hblock, hnumber⟩ := List.mem_map.1 (mem_blocks_iff.2 hcovers)
  obtain ⟨p, led, hstands⟩ := exists_stands hblock
  obtain ⟨headed, hbare⟩ := bare_of_mem_bareBlocks hstands.bare
  have hedge := mem_outgoing.2 ⟨h, hnumber.symm⟩
  rw [hstands.outgoing] at hedge
  -- What is drawn around the construct leads on, so the construct itself draws the edge.
  rcases List.mem_append.1 hedge with hedge | hedge
  · refine ⟨p, hstands.within, ?_⟩
    by_cases hheader : block.number = p.1
    · rw [hheader, headed.outgoing_header] at hedge
      exact hedge
    · rw [headed.outgoing_of_ne hbare hheader] at hedge
      cases hedge
  · exact absurd (hstands.continues.flow hedge) (not_or.2 ⟨honward, hnext⟩)

/-! ### No edge twice, and none to itself -/

/-- The edges from a header into its arms lead to where the arms start. -/
theorem targets_entries (header : Nat) (arms : List (Flow × Outline)) (a : Nat) :
    (entries header arms a).map Edge.target = (placed arms a).map Prod.fst := by
  induction arms generalizing a with
  | nil => rfl
  | cons arm arms ih => rw [entries, placed, List.map_cons, List.map_cons, ih]

/-- No two arms start at the same block. -/
theorem nodup_starts (arms : List (Flow × Outline)) (a : Nat) :
    ((placed arms a).map Prod.fst).Nodup := by
  induction arms generalizing a with
  | nil => exact List.nodup_nil
  | cons arm arms ih =>
    refine List.nodup_cons.2 ⟨fun h => ?_, ih _⟩
    obtain ⟨p, hp, heq⟩ := List.mem_map.1 h
    have hinside := placed_inside hp
    have hpos := arm.2.size_pos
    omega

/-- Edges out of one block of a construct lead to different blocks. -/
theorem nodup_targets_bare (headed : outline.Headed) (h : outline.Bare a n) :
    ((outgoing (outline.edges a) n).map Edge.target).Nodup := by
  by_cases hn : n = a
  · subst hn
    rw [headed.outgoing_header, targets_entries]
    exact nodup_starts _ _
  · rw [headed.outgoing_of_ne h hn]
    exact List.nodup_nil

/-- Edges out of one block of an outline lead to different blocks. -/
theorem nodup_targets (outline : Outline) (a n : Nat) :
    ((outgoing (outline.edges a) n).map Edge.target).Nodup := by
  by_cases hn : outline.Covers a n
  · obtain ⟨block, hblock, rfl⟩ := List.mem_map.1 (mem_blocks_iff.2 hn)
    obtain ⟨p, led, hstands⟩ := exists_stands hblock
    obtain ⟨headed, hbare⟩ := bare_of_mem_bareBlocks hstands.bare
    rw [hstands.outgoing, List.map_append]
    refine List.nodup_append.2 ⟨nodup_targets_bare headed hbare, ?_, ?_⟩
    · cases hstands.continues with
      | kept _ => exact List.nodup_nil
      | led _ _ _ _ _ _ => exact List.pairwise_singleton _ _
    -- The construct draws edges inside it, and around it one is drawn that leads out.
    · intro m hm m' hm' heq
      obtain ⟨edge, hedge, rfl⟩ := List.mem_map.1 hm
      obtain ⟨other, hother, rfl⟩ := List.mem_map.1 hm'
      refine hstands.continues.outside hother (heq ▸ ?_)
      exact (covers_joined ⟨edge, (mem_outgoing.1 hedge).1, rfl, rfl⟩).2
  · rw [outgoing_of_not_covers hn]
    exact List.nodup_nil

/-- No edge of an outline leads back to where it starts. -/
theorem ne_of_joined {m : Nat} (h : Joined (outline.edges a) m n) : m ≠ n := by
  induction outline using induction_pieces generalizing a m n with
  | h outline ih =>
    cases edging h with
    | within p hp h => exact ih a p hp h
    | enter p hp hm hn =>
      rintro rfl
      exact hm.2 p hp (hn ▸ p.2.covers_first p.1)
    | leave p hp hm hn =>
      rintro rfl
      exact hn.2 p hp (covers_exit hm)
    | across p q hp hq hpq hm hn =>
      have hcovers := (covers_exit hm).2
      omega

end

end Outline

end Flowchart.Draft
