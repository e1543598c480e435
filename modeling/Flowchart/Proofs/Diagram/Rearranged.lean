import Mathlib.Data.Set.Basic
import Flowchart.Proofs.Diagram.Cycles

/-!
# `Flowchart.Proofs.Diagram.Rearranged`: diagrams that join the same boxes

A diagram can be written down in many ways. Its boxes and arrows may come in
any order, an arrow may be there more than once, and arrows from or to nowhere
join nothing. What is joined to what stays the same, so the paths of one
diagram are those of the other, with other arrows that stand for the same
steps.

* `Rearranged`: one change of this sort;
* `Alike`: the same boxes, joined in the same way;
* `alike_of_rearranged`: what no number of such changes touches;
* `Alike.exists_leads`: a way through the same boxes;
* `pathLengths`, `Alike.pathLengths_eq`: how long the paths to a box are.
-/

set_option autoImplicit false

namespace Flowchart.Diagram

variable {ι : Type}

/-- A change that joins nothing new: boxes or arrows are put in another order,
an arrow is repeated, or one is added that leads from or to nowhere. -/
inductive Rearranged : Diagram ι → Diagram ι → Prop where
  | boxes {boxes boxes' : List (Box ι)} {arrows : List (Arrow ι)} (h : boxes.Perm boxes') :
      Rearranged ⟨boxes, arrows⟩ ⟨boxes', arrows⟩
  | arrows {boxes : List (Box ι)} {arrows arrows' : List (Arrow ι)} (h : arrows.Perm arrows') :
      Rearranged ⟨boxes, arrows⟩ ⟨boxes, arrows'⟩
  /-- An arrow with the ends of one that is there. -/
  | again {diagram : Diagram ι} {arrow other : Arrow ι} (h : arrow ∈ diagram.arrows)
      (hsource : other.source = arrow.source) (htarget : other.target = arrow.target) :
      Rearranged diagram ⟨diagram.boxes, other :: diagram.arrows⟩
  | loose {diagram : Diagram ι} {arrow : Arrow ι}
      (h : arrow.source ∉ diagram.ids ∨ arrow.target ∉ diagram.ids) :
      Rearranged diagram ⟨diagram.boxes, arrow :: diagram.arrows⟩

/-- Whether the boxes of one diagram are those of another one, and each arrow
that joins some of them has its like there. -/
structure Embeds (diagram diagram' : Diagram ι) : Prop where
  ids : ∀ id, id ∈ diagram.ids ↔ id ∈ diagram'.ids
  joins : ∀ arrow, diagram.Joins arrow →
    ∃ other, diagram'.Joins other ∧ other.source = arrow.source ∧ other.target = arrow.target

/-- Whether two diagrams have the same boxes, joined in the same way. -/
def Alike (diagram diagram' : Diagram ι) : Prop :=
  Embeds diagram diagram' ∧ Embeds diagram' diagram

variable {diagram diagram' diagram'' : Diagram ι}

/-- A diagram embeds in itself. -/
theorem Embeds.refl (diagram : Diagram ι) : Embeds diagram diagram :=
  ⟨fun _ => Iff.rfl, fun arrow harrow => ⟨arrow, harrow, rfl, rfl⟩⟩

/-- What embeds in a diagram embeds in what that embeds in. -/
theorem Embeds.trans (h : Embeds diagram diagram') (h' : Embeds diagram' diagram'') :
    Embeds diagram diagram'' := by
  refine ⟨fun id => (h.ids id).trans (h'.ids id), ?_⟩
  intro arrow harrow
  obtain ⟨between, hbetween, hsource, htarget⟩ := h.joins arrow harrow
  obtain ⟨other, hother, hsource', htarget'⟩ := h'.joins between hbetween
  exact ⟨other, hother, hsource'.trans hsource, htarget'.trans htarget⟩

/-- Arrows that are there, among boxes that are there, still join them. -/
theorem embeds_of_subset (hids : ∀ id, id ∈ diagram.ids ↔ id ∈ diagram'.ids)
    (harrows : diagram.arrows ⊆ diagram'.arrows) : Embeds diagram diagram' := by
  refine ⟨hids, ?_⟩
  rintro arrow ⟨hmem, hsource, htarget⟩
  exact ⟨arrow, ⟨harrows hmem, (hids _).1 hsource, (hids _).1 htarget⟩, rfl, rfl⟩

/-- No change of the sort touches what is joined to what. -/
theorem Rearranged.alike (h : Rearranged diagram diagram') : Alike diagram diagram' := by
  cases h with
  | boxes h =>
    have hids := h.map Box.id
    exact ⟨embeds_of_subset (fun _ => hids.mem_iff) (List.Subset.refl _),
      embeds_of_subset (fun _ => hids.symm.mem_iff) (List.Subset.refl _)⟩
  | arrows h =>
    exact ⟨embeds_of_subset (fun _ => Iff.rfl) h.subset,
      embeds_of_subset (fun _ => Iff.rfl) h.symm.subset⟩
  | @again _ arrow other h hsource htarget =>
    refine ⟨embeds_of_subset (fun _ => Iff.rfl) (List.subset_cons_self _ _), fun _ => Iff.rfl, ?_⟩
    -- The new arrow is like the one that it repeats.
    rintro new ⟨hmem, hends⟩
    rcases List.mem_cons.1 hmem with rfl | hmem
    · refine ⟨arrow, ⟨h, ?_⟩, hsource.symm, htarget.symm⟩
      rw [← hsource, ← htarget]
      exact hends
    · exact ⟨new, ⟨hmem, hends⟩, rfl, rfl⟩
  | @loose _ arrow h =>
    refine ⟨embeds_of_subset (fun _ => Iff.rfl) (List.subset_cons_self _ _), fun _ => Iff.rfl, ?_⟩
    -- The new arrow joins nothing.
    rintro new ⟨hmem, hsource, htarget⟩
    rcases List.mem_cons.1 hmem with rfl | hmem
    · rcases h with h | h
      · exact absurd hsource h
      · exact absurd htarget h
    · exact ⟨new, ⟨hmem, hsource, htarget⟩, rfl, rfl⟩

/-- No number of such changes does. -/
theorem alike_of_rearranged (h : Relation.ReflTransGen Rearranged diagram diagram') :
    Alike diagram diagram' := by
  induction h with
  | refl => exact ⟨.refl diagram, .refl diagram⟩
  | tail _ hstep ih => exact ⟨ih.1.trans hstep.alike.1, hstep.alike.2.trans ih.2⟩

/-! ### Ways through the same boxes -/

/-- A way goes through the same boxes in a diagram that has the like of each
arrow. -/
theorem Embeds.exists_leads (h : Embeds diagram diagram') {start stop : ι} {arrows : List (Arrow ι)}
    (hleads : diagram.Leads start arrows stop) :
    ∃ others, diagram'.Leads start others stop ∧
      others.map Arrow.source = arrows.map Arrow.source := by
  induction arrows generalizing start with
  | nil => exact ⟨[], hleads, rfl⟩
  | cons arrow rest ih =>
    obtain ⟨hjoins, hstart, hrest⟩ := hleads
    obtain ⟨other, hother, hsource, htarget⟩ := h.joins arrow hjoins
    obtain ⟨others, hothers, hsources⟩ := ih hrest
    refine ⟨other :: others, ⟨hother, hsource.trans hstart, ?_⟩, ?_⟩
    · rw [htarget]
      exact hothers
    · rw [List.map_cons, List.map_cons, hsource, hsources]

/-- What embeds in a diagram without cycles has none. -/
theorem Embeds.acyclic (h : Embeds diagram diagram') (hacyclic : diagram'.Acyclic) :
    diagram.Acyclic := by
  rintro cycle ⟨hne, id, hleads⟩
  obtain ⟨others, hothers, hsources⟩ := h.exists_leads hleads
  refine hacyclic others ⟨?_, id, hothers⟩
  rintro rfl
  exact hne (List.map_eq_nil_iff.1 hsources.symm)

/-- How many arrows the paths to a box have. A path passes no box twice. -/
def pathLengths (diagram : Diagram ι) (id : ι) : Set Nat :=
  { n | ∃ start arrows, diagram.Leads start arrows id ∧
    (id :: arrows.map Arrow.source).Nodup ∧ arrows.length = n }

/-- The paths of a diagram are paths of what it embeds in. -/
theorem Embeds.pathLengths_subset (h : Embeds diagram diagram') (id : ι) :
    diagram.pathLengths id ⊆ diagram'.pathLengths id := by
  rintro n ⟨start, arrows, hleads, hnodup, hlength⟩
  obtain ⟨others, hothers, hsources⟩ := h.exists_leads hleads
  refine ⟨start, others, hothers, ?_, ?_⟩
  · rw [hsources]
    exact hnodup
  · rw [← hlength, ← List.length_map Arrow.source, hsources, List.length_map]

/-- Diagrams that are alike have paths of the same lengths. -/
theorem Alike.pathLengths_eq (h : Alike diagram diagram') (id : ι) :
    diagram.pathLengths id = diagram'.pathLengths id :=
  Set.Subset.antisymm (h.1.pathLengths_subset id) (h.2.pathLengths_subset id)

end Flowchart.Diagram
