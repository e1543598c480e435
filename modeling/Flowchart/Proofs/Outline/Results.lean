import Mathlib.Data.List.Forall2
import Flowchart.Proofs.Outline.Outgoing
import Flowchart.Proofs.Outline.Served

/-!
# `Flowchart.Proofs.Outline.Results`: what the parts of a construct give

A construct learns of its parts what they give, one after the other: a
fragment, or nothing. These results are read off the run itself. They are the
fragments of the outlines of the parts, each behind the one before it.

An edge leads from a choice into each arm that gives a fragment, in their
order, and the exits of the arms are those of the fragments.

* `results`, `Request.results`: what parts give when they are served;
* `results_eq`: these are the fragments of their outlines;
* `forall₂_entries`, `forall₂_entries_choice`: the edges from a choice into its
  arms.
-/

set_option autoImplicit false

namespace Flowchart.Draft

/-- What parts give, served one after the other and handed to a construct. -/
def results (table : KindTable) :
    List (Part × Request) → Construct → Draft → List (Part × Option Fragment)
  | [], _, _ => []
  | (part, q) :: parts, construct, draft =>
    let (result, served) := serve table q draft
    let (resumed, received) := construct.receive part result served
    (part, result) :: results table parts resumed received

/-- What the parts of a request give when it is served on a draft. -/
def Request.results (table : KindTable) (r : Request) (draft : Draft) :
    List (Part × Option Fragment) :=
  let (opened, started) := r.start table draft
  Draft.results table (r.parts table) opened started

/-- The first part has its result before the others are served. -/
theorem results_cons (table : KindTable) (p : Part × Request) (parts : List (Part × Request))
    (construct : Construct) (draft : Draft) :
    results table (p :: parts) construct draft =
      (p.1, (serve table p.2 draft).1) ::
        results table parts
          (construct.receive p.1 (serve table p.2 draft).1 (serve table p.2 draft).2).1
          (construct.receive p.1 (serve table p.2 draft).1 (serve table p.2 draft).2).2 := rfl

/-- The results of a request are those of its parts, once its construct is
opened. -/
theorem Request.results_eq_results (table : KindTable) (r : Request) (draft : Draft) :
    r.results table draft =
      Draft.results table (r.parts table) (r.start table draft).1 (r.start table draft).2 := rfl

namespace Outline

/-- The fragments of the parts of a construct, the first of which starts with
the given number. -/
def fragments : List (Part × Option Outline) → Nat → List (Part × Option Fragment)
  | [], _ => []
  | (part, made) :: parts, a =>
    (part, made.map (fragment · a)) :: fragments parts (a + sizeIfAny made)

/-- An edge leads from a header into an arm that gave a fragment. -/
inductive Enters (header : Nat) : Edge → Part × Option Fragment → Prop where
  | arm (index : Nat) (names : List NodeInfo) (fragment : Fragment) :
      Enters header ⟨header, fragment.entry, .arm index names⟩ (.arm index names, some fragment)

variable {parts : List (Part × Option Outline)}

/-- From a header one edge leads into each arm that gives a fragment. -/
theorem forall₂_entries (header : Nat) (h : ∀ p ∈ parts, ∃ index names, p.1 = .arm index names)
    (a : Nat) :
    List.Forall₂ (Enters header) (entries header (armsOf parts) a)
      ((fragments parts a).filter fun p => p.2.isSome) := by
  induction parts generalizing a with
  | nil => exact .nil
  | cons p parts ih =>
    obtain ⟨index, names, hp⟩ := h p List.mem_cons_self
    have ih := ih fun q hq => h q (List.mem_cons_of_mem p hq)
    obtain ⟨part, made⟩ := p
    cases hp
    cases made with
    | none => exact ih _
    | some arm => exact .cons (.arm index names (arm.fragment a)) (ih _)

/-- The exits of the fragments of arms are those of the row. -/
theorem mem_armsExits_of_fragments (h : ∀ p ∈ parts, ∃ index names, p.1 = .arm index names)
    {a n : Nat} {p : Part × Option Fragment} (hp : p ∈ fragments parts a) {fragment : Fragment}
    (hfragment : fragment ∈ p.2) (hn : n ∈ fragment.exits) : n ∈ armsExits (armsOf parts) a := by
  induction parts generalizing a with
  | nil => cases hp
  | cons q parts ih =>
    obtain ⟨index, names, hq⟩ := h q List.mem_cons_self
    have ih := @ih (fun q' hq' => h q' (List.mem_cons_of_mem q hq')) (a + sizeIfAny q.2)
    obtain ⟨part, made⟩ := q
    cases hq
    rcases List.mem_cons.1 hp with rfl | hp
    · cases made with
      | none => cases hfragment
      | some arm =>
        cases hfragment
        exact List.mem_append_left _ hn
    · cases made with
      | none => exact ih hp
      | some arm => exact List.mem_append_right _ (ih hp)

end Outline

section

open Outline

variable {table : KindTable} {r : Request}

/-- What parts give are the fragments of their outlines. -/
theorem results_eq (parts : List (Part × Request)) (construct : Construct) (draft : Draft) :
    results table parts construct draft =
      fragments (parts.map fun p => (p.1, outline table p.2)) draft.next := by
  induction parts generalizing construct draft with
  | nil => rfl
  | cons p parts ih =>
    obtain ⟨hresult, hadds⟩ := drafts table p.2 draft.next draft rfl
    -- To receive a part makes no block, so the next part starts where this one ends.
    obtain ⟨_, _, hreceive⟩ := makes_receive construct p.1 (serve table p.2 draft).1
      (serve table p.2 draft).2.next
    have hnext := (hreceive _ rfl).2.next
    rw [hadds.next, length_blocksIfAny] at hnext
    rw [results_cons, ih, hnext, hresult]
    rfl

/-- What the arms of a choice give. -/
theorem results_choice (hmode : r.mode = .visit)
    (hcategory : table.category? r.tree.label.kind = some .choice) (draft : Draft) :
    r.results table draft =
      fragments ((r.parts table).map fun p => (p.1, outline table p.2)) (draft.next + 1) := by
  have hstart := (makes_start_choice hmode hcategory draft.next draft rfl).2
  rw [Request.results_eq_results, results_eq, hstart.next]
  rfl

/-- The parts of a choice are arms. -/
theorem parts_choice (hmode : r.mode = .visit)
    (hcategory : table.category? r.tree.label.kind = some .choice) {p : Part × Request}
    (hp : p ∈ r.parts table) : ∃ index names, p.1 = .arm index names := by
  simp only [Request.parts, hmode, hcategory] at hp
  obtain ⟨⟨arm, index⟩, _, rfl⟩ := List.mem_map.1 hp
  exact ⟨index, _, rfl⟩

/-- From a choice one edge leads into each arm that gives a fragment. -/
theorem forall₂_entries_choice (hmode : r.mode = .visit)
    (hcategory : table.category? r.tree.label.kind = some .choice) {origin : Origin}
    {arms : List (Flow × Outline)} (harms : outline table r = some (.choice origin arms))
    (draft : Draft) :
    List.Forall₂ (Enters draft.next) (entries draft.next arms (draft.next + 1))
      ((r.results table draft).filter fun p => p.2.isSome) := by
  obtain ⟨rfl, rfl⟩ := Outline.choice.inj
    (Option.some.inj ((outline_choice hmode hcategory).symm.trans harms))
  rw [results_choice hmode hcategory]
  refine forall₂_entries draft.next (fun p hp => ?_) (draft.next + 1)
  obtain ⟨q, hq, rfl⟩ := List.mem_map.1 hp
  exact parts_choice hmode hcategory hq

/-- What gives something to a construct is one of its parts. -/
theorem mem_parts_of_results {part : Part} {result : Option Fragment} {draft : Draft}
    (h : (part, result) ∈ r.results table draft) : ∃ q, (part, q) ∈ r.parts table := by
  -- Fragments keep the parts in their order, whatever they are numbered from.
  have hfragments : ∀ {parts : List (Part × Option Outline)} {a : Nat},
      (part, result) ∈ fragments parts a → part ∈ parts.map Prod.fst := by
    intro parts a h
    induction parts generalizing a with
    | nil => cases h
    | cons p parts ih =>
      rcases List.mem_cons.1 h with h | h
      · exact (Prod.mk.inj h).1 ▸ List.mem_cons_self
      · exact List.mem_cons_of_mem _ (ih h)
  rw [Request.results_eq_results, results_eq] at h
  have hpart := hfragments h
  rw [List.map_map, List.mem_map] at hpart
  obtain ⟨⟨_, q⟩, hq, rfl⟩ := hpart
  exact ⟨q, hq⟩

end

end Flowchart.Draft
