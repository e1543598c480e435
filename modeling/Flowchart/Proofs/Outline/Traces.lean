import Flowchart.Proofs.Outline.Served
import Flowchart.Proofs.Outline.Walks

/-!
# `Flowchart.Proofs.Outline.Traces`: what a program can do

A structured program goes through its blocks as its constructs say: one thing
after another, one part of a branch or the other, a loop any number of times,
one arm of a choice. That is the language of its traces, and it says nothing
about edges. The graph of an outline has exactly these traces as its walks
from the entry to the exits: nothing that the program can do is missing, and
no walk is there that the program does not have.

* `traces`: the traces of an outline, by recursion on it;
* `walks_eq_traces`: the walks of an outline are its traces;
* `walks_of_served`: the same for whatever is served while a tree is drafted,
  along the edges that are drawn for it.
-/

set_option autoImplicit false

namespace Flowchart.Draft

namespace Outline

open scoped Computability

mutual

/-- The traces of an outline, the first block of which has the given
number. -/
def traces : Outline → Nat → Language Nat
  | .statement _, a => {[a]}
  | .terminator _, _ => 0
  | .sequel first second, a => first.traces a * second.traces (a + first.size)
  | .branch _ hasAlternative body alternative, a =>
    {[a]} * tracesIfAny 1 body (a + 1) +
      {[a]} * tracesIfAny (if hasAlternative then 0 else 1) alternative (a + 1 + sizeIfAny body)
  | .loop _ body, a => {[a]} * (tracesIfAny 0 body (a + 1) * {[a]})∗
  | .choice _ arms, a =>
    {[a]} * armsTraces arms (a + 1) + if armsExits arms (a + 1) = [] then {[a]} else 0
  | .function _ none, a => {[a]}
  | .function _ (some body), a => {[a]} * body.traces (a + 1) * {[a + 1 + body.size]}

/-- The traces of a part, or others where it built nothing. -/
def tracesIfAny (missing : Language Nat) : Option Outline → Nat → Language Nat
  | none, _ => missing
  | some outline, a => outline.traces a

/-- The traces of one of a row of arms. -/
def armsTraces : List (Flow × Outline) → Nat → Language Nat
  | [], _ => 0
  | (_, arm) :: arms, a => arm.traces a + armsTraces arms (a + arm.size)

end

/-- The walks of an outline are its traces, wherever its numbers start. -/
def Traced (outline : Outline) : Prop :=
  ∀ a, walks (outline.edges a) a (outline.exits a) = outline.traces a

variable {w : List Nat} {a n : Nat}

/-- A word of one letter in front of others. -/
theorem mem_singleton_mul {l : Language Nat} : w ∈ {[a]} * l ↔ ∃ v ∈ l, w = a :: v := by
  rw [Language.mem_mul]
  constructor
  · rintro ⟨_, rfl, v, hv, rfl⟩
    exact ⟨v, hv, rfl⟩
  · rintro ⟨v, hv, rfl⟩
    exact ⟨[a], rfl, v, hv, rfl⟩

/-! ### Leaves -/

/-- Without edges, the walk from a block to itself is that block alone. -/
theorem walks_nil_edges (a : Nat) : walks [] a [a] = {[a]} := by
  ext w
  refine ⟨fun h => ?_, fun h => ?_⟩
  · rcases walks_head h with ⟨rfl, _⟩ | ⟨_, _, _, h, _⟩
    · rfl
    · exact absurd h joined_nil
  · rw [Set.mem_singleton_iff.1 h]
    exact singleton_mem_walks List.mem_cons_self

/-- Where there is no exit, no walk ends. -/
theorem walks_no_exits (edges : List Edge) (a : Nat) : walks edges a [] = 0 := by
  ext w
  refine ⟨?_, fun h => absurd h (Language.notMem_zero w)⟩
  rintro ⟨_, _, _, h, _⟩
  cases h

/-! ### One thing after another -/

section

variable {first second : Outline} {m : Nat}

/-- What one thing after another joins is joined in one of both, or leads from
an exit of the first into the second. -/
theorem joined_sequel : Joined ((Outline.sequel first second).edges a) m n ↔
    Joined (first.edges a) m n ∨ Joined (second.edges (a + first.size)) m n ∨
      (m ∈ first.exits a ∧ n = a + first.size) := by
  simp [edges]

/-- Control goes from the first thing to the entry of the second one. -/
theorem sequel_leaves_first (h : Joined ((Outline.sequel first second).edges a) m n)
    (hm : first.Covers a m) (hn : ¬first.Covers a n) : n = a + first.size := by
  rcases joined_sequel.1 h with h | h | ⟨_, rfl⟩
  · exact absurd (covers_joined h).2 hn
  · have := (covers_joined h).1
    unfold Covers at this hm
    omega
  · rfl

/-- Control never goes back from the second thing. -/
theorem sequel_stays_second (h : Joined ((Outline.sequel first second).edges a) m n)
    (hm : second.Covers (a + first.size) m) : second.Covers (a + first.size) n := by
  rcases joined_sequel.1 h with h | h | ⟨h, _⟩
  · have := (covers_joined h).1
    unfold Covers at this hm
    omega
  · exact (covers_joined h).2
  · have := covers_exit h
    unfold Covers at this hm
    omega

/-- One thing after another goes as its traces say if both things do. -/
theorem traced_sequel (hfirst : first.Traced) (hsecond : second.Traced) :
    (Outline.sequel first second).Traced := by
  intro a
  have hsealed := sealed_self (.sequel first second) a
  have hsealedFirst := hsealed.piece (q := (a, first)) List.mem_cons_self
  have hsealedSecond := hsealed.piece (q := (a + first.size, second))
    (List.mem_cons_of_mem _ List.mem_cons_self)
  rw [traces, ← hfirst a, ← hsecond (a + first.size)]
  ext w
  rw [Language.mem_mul]
  constructor
  · intro hw
    -- The exits lie in the second thing, so a walk leaves the first one, and it cannot come back.
    rcases hsealedFirst.walks_cases hw with
      ⟨_, n, hn, _, hcovers⟩ | ⟨u, v, x, n, rfl, hu, hv, hx, hjoined, hn⟩
    · have hcovers' : second.Covers (a + first.size) n := covers_exit hn
      simp only [Covers] at hcovers hcovers'
      omega
    · cases sequel_leaves_first hjoined (covers_exit hx) hn
      rcases hsealedSecond.walks_cases hv with
        ⟨hv, _⟩ | ⟨_, _, x, n, _, _, _, hx, hjoined, hn⟩
      · exact ⟨u, hu, v, hv, rfl⟩
      · exact absurd (sequel_stays_second hjoined (covers_exit hx)) hn
  · rintro ⟨u, hu, v, hv, rfl⟩
    refine append_mem_walks (walks_mono (fun h => joined_sequel.2 (.inl h)) hu)
      (walks_mono (fun h => joined_sequel.2 (.inr (.inl h))) hv) fun m hm => ?_
    exact joined_sequel.2 (.inr (.inr ⟨hm, rfl⟩))

end

/-! ### One of a row of arms -/

section

variable {arms : List (Flow × Outline)} {m : Nat} {p : Nat × Outline}

/-- A row of arms goes as one of its arms does. -/
theorem mem_armsTraces : w ∈ armsTraces arms a ↔ ∃ p ∈ placed arms a, w ∈ p.2.traces p.1 := by
  induction arms generalizing a with
  | nil => simp [armsTraces, placed, Language.notMem_zero]
  | cons arm arms ih =>
    rw [armsTraces, Language.mem_add, ih]
    simp [placed]

/-- A header leads to the entries of its arms. -/
theorem arms_entered (h : Joined (armsEdges a arms (a + 1)) a n) :
    ∃ p ∈ placed arms (a + 1), n = p.1 := by
  obtain ⟨p, hp, h | ⟨_, rfl⟩⟩ := joined_armsEdges.1 h
  · have hinside := placed_inside hp
    have hcovers := (covers_joined h).1
    unfold Covers at hcovers
    omega
  · exact ⟨p, hp, rfl⟩

/-- Control never leaves an arm along the edges of the row. -/
theorem arms_stay (hp : p ∈ placed arms (a + 1)) (h : Joined (armsEdges a arms (a + 1)) m n)
    (hm : p.2.Covers p.1 m) : p.2.Covers p.1 n := by
  obtain ⟨q, hq, h | ⟨rfl, _⟩⟩ := joined_armsEdges.1 h
  · obtain ⟨hqm, hqn⟩ := covers_joined h
    rcases placed_apart hp hq with rfl | hapart | hapart
    · exact hqn
    all_goals
      unfold Covers at hm hqm
      omega
  · have hinside := placed_inside hp
    unfold Covers at hm
    omega

section

variable {exits : List Nat} {here : Prop}

/-- A walk from a header is over at once, or goes through one of the arms. -/
theorem walks_arms_cases (origin : Origin) (htraced : ∀ p ∈ placed arms (a + 1), p.2.Traced)
    (hexits : ∀ n, n ∈ exits ↔ n ∈ armsExits arms (a + 1) ∨ (n = a ∧ here))
    (hw : w ∈ walks (armsEdges a arms (a + 1)) a exits) :
    (∃ v ∈ armsTraces arms (a + 1), w = a :: v) ∨ (here ∧ w = [a]) := by
  have hsealed := sealed_self (.choice origin arms) a
  rcases walks_head hw with ⟨rfl, ha⟩ | ⟨n, v, rfl, hjoined, hv⟩
  · rcases (hexits a).1 ha with ha | ⟨_, hhere⟩
    · obtain ⟨p, hp, ha⟩ := mem_armsExits.1 ha
      exact absurd (covers_exit ha) (header_outside_arm hp)
    · exact .inr ⟨hhere, rfl⟩
  · obtain ⟨p, hp, rfl⟩ := arms_entered hjoined
    refine .inl ⟨v, mem_armsTraces.2 ⟨p, hp, ?_⟩, rfl⟩
    rw [← htraced p hp]
    -- The walk cannot leave the arm, so it ends there, and only at an exit of the arm.
    rcases (hsealed.piece hp).walks_cases hv with
      ⟨hv, n, _, hlast, hcovers⟩ | ⟨_, _, x, n, _, _, _, hx, hjoined, hn⟩
    · refine walks_exits (fun k hk hkexits => ?_) hv
      cases hlast.symm.trans hk
      rcases (hexits n).1 hkexits with hn | ⟨rfl, _⟩
      · exact exit_of_arm hp hn hcovers
      · exact absurd hcovers (header_outside_arm hp)
    · exact absurd (arms_stay hp hjoined (covers_exit hx)) hn

/-- A trace of one of the arms is a walk from the header. -/
theorem cons_mem_walks_arms (htraced : ∀ p ∈ placed arms (a + 1), p.2.Traced)
    (hexits : ∀ n ∈ armsExits arms (a + 1), n ∈ exits) {v : List Nat}
    (hv : v ∈ armsTraces arms (a + 1)) :
    a :: v ∈ walks (armsEdges a arms (a + 1)) a exits := by
  obtain ⟨p, hp, hv⟩ := mem_armsTraces.1 hv
  rw [← htraced p hp] at hv
  have hstart : [a] ∈ walks (armsEdges a arms (a + 1)) a [a] :=
    singleton_mem_walks List.mem_cons_self
  have hv' : v ∈ walks (armsEdges a arms (a + 1)) p.1 exits :=
    walks_exits (fun n _ hn => hexits n (mem_armsExits.2 ⟨p, hp, hn⟩))
      (walks_mono (fun h => joined_armsEdges.2 ⟨p, hp, .inl h⟩) hv)
  refine append_mem_walks hstart hv' fun m hm => ?_
  exact joined_armsEdges.2 ⟨p, hp, .inr ⟨(List.mem_singleton.1 hm).symm, rfl⟩⟩

/-- The walks from a header go through one of its arms, or end at the header
where that is an exit. -/
theorem mem_walks_arms (origin : Origin) (htraced : ∀ p ∈ placed arms (a + 1), p.2.Traced)
    (hexits : ∀ n, n ∈ exits ↔ n ∈ armsExits arms (a + 1) ∨ (n = a ∧ here)) :
    w ∈ walks (armsEdges a arms (a + 1)) a exits ↔
      w ∈ {[a]} * armsTraces arms (a + 1) ∨ (here ∧ w = [a]) := by
  rw [mem_singleton_mul]
  constructor
  · exact walks_arms_cases origin htraced hexits
  · rintro (⟨v, hv, rfl⟩ | ⟨hhere, rfl⟩)
    · exact cons_mem_walks_arms htraced (fun n hn => (hexits n).2 (.inl hn)) hv
    · exact singleton_mem_walks ((hexits a).2 (.inr ⟨rfl, hhere⟩))

end

/-- A choice goes as its traces say if its arms do. -/
theorem traced_choice (origin : Origin)
    (htraced : ∀ a, ∀ p ∈ (Outline.choice origin arms).pieces a, p.2.Traced) :
    (Outline.choice origin arms).Traced := by
  intro a
  ext w
  rw [edges]
  refine (mem_walks_arms origin (htraced a) (mem_exits_choice origin arms a)).trans ?_
  rw [traces, Language.mem_add]
  refine or_congr Iff.rfl ?_
  split
  · rename_i hnone
    exact and_iff_right hnone
  · rename_i hnone
    exact iff_of_false (fun h => hnone h.1) (Language.notMem_zero w)

/-- A branch goes as its traces say if its parts do. -/
theorem traced_branch (origin : Origin) (hasAlternative : Bool) (body alternative : Option Outline)
    (htraced : ∀ a, ∀ p ∈ (Outline.branch origin hasAlternative body alternative).pieces a,
      p.2.Traced) : (Outline.branch origin hasAlternative body alternative).Traced := by
  intro a
  ext w
  rw [edges_branch]
  refine (mem_walks_arms origin (htraced a)
    (mem_exits_branch origin hasAlternative body alternative a)).trans ?_
  rw [traces, Language.mem_add, mem_singleton_mul, mem_singleton_mul, mem_singleton_mul]
  cases body <;> cases alternative <;> cases hasAlternative <;>
    simp [-add_eq_sup, Outline.arms, side, armsTraces, tracesIfAny, sizeIfAny, Language.mem_add,
      Language.mem_one, Language.notMem_zero, or_and_right, exists_or, or_comm]

end

/-! ### Around a body -/

/-- A construct around a body: its header leads to the body, and the body to
a block outside of it. -/
structure Around (outline body : Outline) (a back : Nat) : Prop where
  piece : (a + 1, body) ∈ outline.pieces a
  outside : ¬body.Covers (a + 1) back
  joined : ∀ {m n}, Joined (outline.edges a) m n ↔ Joined (body.edges (a + 1)) m n ∨
    (a = m ∧ a + 1 = n) ∨ (m ∈ body.exits (a + 1) ∧ n = back)

/-- The header of a loop leads to the body, and the body back to the header. -/
theorem around_loop (origin : Origin) (body : Outline) (a : Nat) :
    Around (.loop origin (some body)) body a a where
  piece := List.mem_cons_self
  outside := by
    unfold Covers
    omega
  joined := by simp [edges, sideEdges, exitsIfAny]

/-- The entry of a function leads to the body, and the body to the last block.
-/
theorem around_function (origin : Origin) (body : Outline) (a : Nat) :
    Around (.function origin (some body)) body a (a + 1 + body.size) where
  piece := List.mem_cons_self
  outside := by
    unfold Covers
    omega
  joined := by simp [edges]

namespace Around

variable {outline body : Outline} {back b : Nat} {exits : List Nat} {u v : List Nat}

/-- From its header a construct goes into the body and nowhere else. -/
theorem entered (h : Around outline body a back) (hjoined : Joined (outline.edges a) a n) :
    n = a + 1 := by
  have hheader : ¬body.Covers (a + 1) a := by
    unfold Covers
    omega
  rcases h.joined.1 hjoined with hjoined | ⟨_, rfl⟩ | ⟨hexit, _⟩
  · exact absurd (covers_joined hjoined).1 hheader
  · rfl
  · exact absurd (covers_exit hexit) hheader

/-- A walk from the header is over at once, or goes through the body and on
from where the body leads. -/
theorem walks_cases (h : Around outline body a back)
    (hexits : ∀ n ∈ exits, ¬body.Covers (a + 1) n) (hw : w ∈ walks (outline.edges a) a exits) :
    (w = [a] ∧ a ∈ exits) ∨
      ∃ u ∈ walks (body.edges (a + 1)) (a + 1) (body.exits (a + 1)),
        ∃ v ∈ walks (outline.edges a) back exits, w = a :: (u ++ v) := by
  rcases walks_head hw with hover | ⟨n, v, rfl, hjoined, hv⟩
  · exact .inl hover
  · right
    cases h.entered hjoined
    -- From the header a walk gets into the body, and either ends there or leaves it by an exit.
    rcases ((sealed_self outline a).piece h.piece).walks_cases hv with
      ⟨_, n, hn, _, hcovers⟩ | ⟨u, v, x, n, rfl, hu, hv, _, hjoined, hn⟩
    · exact absurd hcovers (hexits n hn)
    · rcases h.joined.1 hjoined with hjoined | ⟨_, rfl⟩ | ⟨_, rfl⟩
      · exact absurd (covers_joined hjoined).2 hn
      · exact absurd (body.covers_first (a + 1)) hn
      · exact ⟨u, hu, v, hv, rfl⟩

/-- A walk to the header goes on through the body. -/
theorem append_mem (h : Around outline body a back) (hv : v ∈ walks (outline.edges a) b [a])
    (hu : u ∈ walks (body.edges (a + 1)) (a + 1) (body.exits (a + 1))) :
    v ++ (u ++ [back]) ∈ walks (outline.edges a) b [back] := by
  have hbody : u ++ [back] ∈ walks (outline.edges a) (a + 1) [back] :=
    append_mem_walks (walks_mono (fun hjoined => h.joined.2 (.inl hjoined)) hu)
      (singleton_mem_walks List.mem_cons_self)
      fun m hm => h.joined.2 (.inr (.inr ⟨hm, rfl⟩))
  refine append_mem_walks hv hbody fun m hm => ?_
  exact h.joined.2 (.inr (.inl ⟨(List.mem_singleton.1 hm).symm, rfl⟩))

end Around

section

variable {origin : Origin} {body : Outline}

/-- One more round in front of some rounds. -/
theorem cons_round {l : Language Nat} {u v : List Nat} (hu : u ∈ l) (hv : v ∈ l∗) :
    u ++ v ∈ l∗ := by
  have hle : l * l∗ ≤ l∗ := mul_kstar_le_kstar
  exact Set.mem_of_mem_of_subset (Language.append_mem_mul hu hv) hle

/-- Each round of a walk is one round of a trace, so the induction is on how
long the walk is. -/
theorem loop_walk_rounds (hw : w ∈ walks ((Outline.loop origin (some body)).edges a) a [a]) :
    w ∈ ({[a]} * (walks (body.edges (a + 1)) (a + 1) (body.exits (a + 1)) * {[a]})∗ :
      Language Nat) := by
  have haround := around_loop origin body a
  induction hlength : w.length using Nat.strong_induction_on generalizing w with
  | h length ih =>
    have hexits : ∀ n ∈ [a], ¬body.Covers (a + 1) n := by
      intro n hn
      rw [List.mem_singleton.1 hn]
      exact haround.outside
    rw [mem_singleton_mul]
    rcases haround.walks_cases hexits hw with ⟨rfl, _⟩ | ⟨u, hu, v, hv, rfl⟩
    · exact ⟨[], Language.nil_mem_kstar _, rfl⟩
    -- One round is taken off: what is left is a shorter walk from the header.
    · have hshorter : v.length < length := by
        rw [← hlength, List.length_cons, List.length_append]
        omega
      obtain ⟨rounds, hrounds, rfl⟩ := mem_singleton_mul.1 (ih v.length hshorter hv rfl)
      refine ⟨(u ++ [a]) ++ rounds, ?_, by simp⟩
      exact cons_round (Language.append_mem_mul hu (Set.mem_singleton [a])) hrounds

/-- A loop goes as its traces say if its body does. -/
theorem traced_loop (hbody : body.Traced) : (Outline.loop origin (some body)).Traced := by
  intro a
  have haround := around_loop origin body a
  rw [traces, tracesIfAny, ← hbody (a + 1)]
  -- The walks have the header, and with a walk also the walk with one more round behind it.
  refine le_antisymm (fun w hw => loop_walk_rounds hw) (mul_kstar_le ?_ ?_)
  · rintro _ rfl
    exact singleton_mem_walks List.mem_cons_self
  · intro w hw
    obtain ⟨v, hv, round, hround, rfl⟩ := Language.mem_mul.1 hw
    obtain ⟨u, hu, _, rfl, rfl⟩ := Language.mem_mul.1 hround
    exact haround.append_mem hv hu

/-- The block that ends a function leads nowhere. -/
theorem joined_last {n : Nat} :
    ¬Joined ((Outline.function origin (some body)).edges a) (a + 1 + body.size) n := by
  have haround := around_function origin body a
  intro h
  rcases haround.joined.1 h with h | ⟨h, _⟩ | ⟨h, _⟩
  · exact haround.outside (covers_joined h).1
  · omega
  · exact haround.outside (covers_exit h)

/-- A function goes as its traces say if its body does. -/
theorem traced_function (hbody : body.Traced) : (Outline.function origin (some body)).Traced := by
  intro a
  have haround := around_function origin body a
  have hexits : ∀ n ∈ [a + 1 + body.size], ¬body.Covers (a + 1) n := by
    intro n hn
    rw [List.mem_singleton.1 hn]
    exact haround.outside
  rw [traces, ← hbody (a + 1), mul_assoc]
  ext w
  rw [mem_singleton_mul]
  -- The last block is entered from the exits of the body only, and leads nowhere.
  constructor
  · intro hw
    rcases haround.walks_cases hexits hw with ⟨_, ha⟩ | ⟨u, hu, v, hv, rfl⟩
    · have hlast := List.mem_singleton.1 ha
      omega
    · rcases walks_head hv with ⟨rfl, _⟩ | ⟨_, _, _, hjoined, _⟩
      · exact ⟨_, Language.append_mem_mul hu rfl, rfl⟩
      · exact absurd hjoined joined_last
  · rintro ⟨v, hv, rfl⟩
    obtain ⟨u, hu, _, rfl, rfl⟩ := Language.mem_mul.1 hv
    exact haround.append_mem (singleton_mem_walks List.mem_cons_self) hu

end

/-- The walks of an outline from its entry to its exits are its traces. -/
theorem walks_eq_traces (outline : Outline) (a : Nat) :
    walks (outline.edges a) a (outline.exits a) = outline.traces a := by
  suffices h : outline.Traced from h a
  -- By induction on the pieces, for every first number at once: each construct goes as its traces
  -- say if its pieces do.
  induction outline using induction_pieces with
  | h outline ih =>
    cases outline with
    | statement _ => exact walks_nil_edges
    | terminator _ => exact walks_no_exits []
    | sequel first second =>
      exact traced_sequel (ih 0 _ List.mem_cons_self)
        (ih 0 _ (List.mem_cons_of_mem _ List.mem_cons_self))
    | branch origin hasAlternative body alternative =>
      exact traced_branch origin hasAlternative body alternative ih
    | choice origin arms => exact traced_choice origin ih
    | loop origin body =>
      cases body with
      | none =>
        intro a
        rw [traces, tracesIfAny, zero_mul, kstar_zero, mul_one]
        exact walks_nil_edges a
      | some body => exact traced_loop (ih 0 _ List.mem_cons_self)
    | function origin body =>
      cases body with
      | none => exact walks_nil_edges
      | some body => exact traced_function (ih 0 _ List.mem_cons_self)

end Outline

/-! ### What is served -/

open Outline
open scoped Computability

/-- Whatever is served while a tree is drafted, the walks from the entry of
its fragment to the exits, along the edges that are drawn for it, are the
traces of its outline. Those edges stay in the graph of the tree. -/
theorem walks_of_served {table : KindTable} {tree : MarkedTree} {r : Request} {d : Draft}
    (h : Served table tree r d) {fragment : Fragment}
    (hresult : (serve table r d).1 = some fragment) :
    ∃ program edges, outline table r = some program ∧
      (serve table r d).2.edges = d.edges ++ edges ∧
      (∃ later, (draft table tree).edges = d.edges ++ edges ++ later) ∧
      walks edges fragment.entry fragment.exits = program.traces d.next := by
  obtain ⟨hfragment, hadds⟩ := drafts table r d.next d rfl
  obtain ⟨_, drawn, hlater⟩ := h.goes_on
  rw [hresult] at hfragment
  -- Without an outline there would be no fragment.
  cases houtline : outline table r with
  | none => simp [houtline] at hfragment
  | some program =>
    rw [houtline, Option.map_some, Option.some.injEq] at hfragment
    rw [houtline] at hadds
    subst hfragment
    refine ⟨program, program.edges d.next, rfl, hadds.edges, ?_, walks_eq_traces program d.next⟩
    refine ⟨drawn ++ (draft table tree).entryEdge?.toList, ?_⟩
    rw [Result.edges, hlater.edges, hadds.edges, ← List.append_assoc]
    rfl

/-! The loop of the sample goes through its statement any number of times. -/

namespace Sample

/-- The request for the statement in the loop. -/
def statement : Request :=
  ⟨.visit, .node ⟨node "call", false⟩ [], [.child 0, .child 0]⟩

/-- The outline of the statement in the loop is that statement. -/
theorem outline_statement :
    outline kinds statement = some (.statement (statement.origin .whole)) := by
  have hcategory : kinds.category? statement.tree.label.kind = none := by cbv
  have hcontainer : kinds.isContainer statement.tree.label = false := by cbv
  have hleaf : (statement.tree.label.isNamed && !kinds.isComment statement.tree.label.kind) =
      true := by cbv
  rw [outline_leaf rfl hcategory hcontainer, if_pos hleaf]

/-- The body of the loop is the statement. -/
theorem outline_body :
    childOutline kinds loop .bodies = some (.statement (statement.origin .whole)) := by
  have hbody : loop.tree.child? kinds .bodies = some (.node ⟨node "do", false⟩ [statement.tree]) :=
    by cbv
  have hparts : Request.parts kinds ⟨.chain, .node ⟨node "do", false⟩ [statement.tree], loop.path⟩ =
      [(.link, statement)] := by cbv
  rw [childOutline, hbody, insideOutline, Option.bind_some, outline_links rfl (by simp [hparts]),
    hparts]
  simp [chained, follow, outline_statement]

end Sample

/-- The loop of the sample goes from its header through the statement and back,
any number of times. -/
theorem walks_of_served_loop :
    Served Sample.kinds (Sample.kinds.mark Sample.program) Sample.loop Sample.beforeLoop ∧
      (serve Sample.kinds Sample.loop Sample.beforeLoop).1 = some ⟨0, [0]⟩ ∧
      ∃ edges, (serve Sample.kinds Sample.loop Sample.beforeLoop).2.edges =
          Sample.beforeLoop.edges ++ edges ∧
        walks edges 0 [0] = {[0]} * ({[1]} * {[0]})∗ := by
  obtain ⟨program, edges, hprogram, hedges, _, hwalks⟩ :=
    walks_of_served Sample.served_loop Sample.serve_loop
  rw [outline_loop rfl Sample.category_loop, Sample.outline_body, Option.some.injEq] at hprogram
  rw [← hprogram, Sample.next_beforeLoop] at hwalks
  exact ⟨Sample.served_loop, Sample.serve_loop, edges, hedges, hwalks⟩

end Flowchart.Draft
