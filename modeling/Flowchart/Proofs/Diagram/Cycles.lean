import Mathlib.Data.List.Nodup
import Flowchart.Proofs.Layering.Descent

/-!
# `Flowchart.Proofs.Diagram.Cycles`: the cycles of a diagram

Arrows lead from one box to another if each of them starts where the one
before it ends, and they form a cycle if they lead back to where they start.
Only arrows between boxes of the diagram count.

* `Diagram.Leads`, `Diagram.IsCycle`, `Diagram.Acyclic`: ways, cycles, and
  diagrams without any;
* `exists_leads`: a box that can be reached can be reached without passing a
  box twice;
* `Leads.nodup`: where every arrow rises, a way passes no box twice;
* `IsCycle.exists_le`: on a cycle, levels do not rise all the way;
* `IsCycle.confined`: a cycle that goes back to where a region is entered
  stays inside the region;
* `IsCycle.of_without`: a cycle that is left when arrows are taken away;
* `Acyclic.not_reaches`: without cycles, no box leads to a predecessor.
-/

set_option autoImplicit false

namespace Flowchart.Diagram

open Layout

variable {ι : Type}

/-- Whether an arrow joins boxes of a diagram. -/
def Joins (diagram : Diagram ι) (arrow : Arrow ι) : Prop :=
  arrow ∈ diagram.arrows ∧ arrow.source ∈ diagram.ids ∧ arrow.target ∈ diagram.ids

/-- Whether arrows lead from one box to another, each starting where the one
before it ends. -/
def Leads (diagram : Diagram ι) : ι → List (Arrow ι) → ι → Prop
  | start, [], stop => start = stop
  | start, arrow :: rest, stop =>
    diagram.Joins arrow ∧ arrow.source = start ∧ diagram.Leads arrow.target rest stop

/-- Whether arrows lead back to where they start. -/
def IsCycle (diagram : Diagram ι) (arrows : List (Arrow ι)) : Prop :=
  arrows ≠ [] ∧ ∃ id, diagram.Leads id arrows id

/-- Whether a diagram has no cycle. -/
def Acyclic (diagram : Diagram ι) : Prop :=
  ∀ arrows, ¬diagram.IsCycle arrows

/-- A diagram without the arrows that have one of some keys. -/
def without (diagram : Diagram ι) (keys : List Text) : Diagram ι :=
  ⟨diagram.boxes, diagram.arrows.filter fun arrow => arrow.key ∉ keys⟩

variable {diagram : Diagram ι}

/-! ### Ways -/

/-- The arrows of a way are arrows between boxes. -/
theorem Leads.joins {start stop : ι} {arrows : List (Arrow ι)}
    (h : diagram.Leads start arrows stop) {arrow : Arrow ι} (harrow : arrow ∈ arrows) :
    diagram.Joins arrow := by
  induction arrows generalizing start with
  | nil => cases harrow
  | cons first rest ih =>
    obtain ⟨hfirst, _, hrest⟩ := h
    rcases List.mem_cons.1 harrow with rfl | harrow
    · exact hfirst
    · exact ih hrest harrow

/-- A way can be joined at each box that it passes. -/
theorem Leads.enter {start stop id : ι} {arrows : List (Arrow ι)}
    (h : diagram.Leads start arrows stop) (hid : id ∈ arrows.map Arrow.source) :
    ∃ rest, rest <:+ arrows ∧ diagram.Leads id rest stop := by
  induction arrows generalizing start with
  | nil => cases hid
  | cons first rest ih =>
    obtain ⟨hfirst, _, hrest⟩ := h
    rcases List.mem_cons.1 hid with rfl | hid
    · exact ⟨first :: rest, List.suffix_refl _, hfirst, rfl, hrest⟩
    · obtain ⟨tail, htail, hleads⟩ := ih hrest hid
      exact ⟨tail, htail.trans (List.suffix_cons first rest), hleads⟩

/-- One way after another is a way. -/
theorem Leads.append {start between stop : ι} {before after : List (Arrow ι)}
    (h : diagram.Leads start before between) (hafter : diagram.Leads between after stop) :
    diagram.Leads start (before ++ after) stop := by
  induction before generalizing start with
  | nil => exact (show start = between from h) ▸ hafter
  | cons arrow rest ih =>
    obtain ⟨hjoins, hsource, hrest⟩ := h
    exact ⟨hjoins, hsource, ih hrest⟩

/-- What every arrow carries from its source to its target holds all along a
way. -/
theorem Leads.carry {P : ι → Prop} {start stop : ι} {arrows : List (Arrow ι)}
    (h : diagram.Leads start arrows stop) (hstart : P start)
    (hcarry : ∀ arrow ∈ arrows, P arrow.source → P arrow.target) :
    P stop ∧ ∀ arrow ∈ arrows, P arrow.source := by
  induction arrows generalizing start with
  | nil => exact ⟨(show start = stop from h) ▸ hstart, nofun⟩
  | cons arrow rest ih =>
    obtain ⟨_, rfl, hrest⟩ := h
    have hnext := hcarry arrow List.mem_cons_self hstart
    obtain ⟨hstop, hall⟩ := ih hrest hnext fun other hother =>
      hcarry other (List.mem_cons_of_mem _ hother)
    exact ⟨hstop, List.forall_mem_cons.2 ⟨hstart, hall⟩⟩

/-- Where every arrow rises, so does the way. -/
theorem Leads.le (level : ι → Nat) {start stop : ι} {arrows : List (Arrow ι)}
    (h : diagram.Leads start arrows stop)
    (hlevel : ∀ arrow ∈ arrows, level arrow.source < level arrow.target) :
    level start + arrows.length ≤ level stop := by
  induction arrows generalizing start with
  | nil => rw [show start = stop from h, List.length_nil, Nat.add_zero]
  | cons arrow rest ih =>
    obtain ⟨_, rfl, hrest⟩ := h
    have hfirst := hlevel arrow List.mem_cons_self
    have hle := ih hrest fun other hother => hlevel other (List.mem_cons_of_mem _ hother)
    rw [List.length_cons]
    omega

/-- Where every arrow rises, the way passes no box twice. -/
theorem Leads.nodup (level : ι → Nat) {start stop : ι} {arrows : List (Arrow ι)}
    (h : diagram.Leads start arrows stop)
    (hlevel : ∀ arrow ∈ arrows, level arrow.source < level arrow.target) :
    (stop :: arrows.map Arrow.source).Nodup := by
  induction arrows generalizing start with
  | nil => exact List.nodup_singleton stop
  | cons arrow rest ih =>
    obtain ⟨_, _, hrest⟩ := h
    have hrise : ∀ other ∈ rest, level other.source < level other.target := fun other hother =>
      hlevel other (List.mem_cons_of_mem _ hother)
    -- The box that the arrow starts at is left for good.
    obtain ⟨hstop, hsources⟩ := hrest.carry (P := fun id => level arrow.source < level id)
      (hlevel arrow List.mem_cons_self) fun other hother hlt =>
        Nat.lt_trans hlt (hrise other hother)
    have hnew : arrow.source ∉ stop :: rest.map Arrow.source := by
      intro hmem
      rcases List.mem_cons.1 hmem with heq | hmem
      · exact absurd hstop (heq ▸ Nat.lt_irrefl _)
      · obtain ⟨other, hother, heq⟩ := List.mem_map.1 hmem
        have hlt := hsources other hother
        rw [heq] at hlt
        exact Nat.lt_irrefl _ hlt
    rw [List.map_cons, (List.Perm.swap _ _ _).nodup_iff]
    exact List.nodup_cons.2 ⟨hnew, ih hrest hrise⟩

/-- On a cycle, levels do not rise all the way. -/
theorem IsCycle.exists_le {cycle : List (Arrow ι)} (h : diagram.IsCycle cycle) (level : ι → Nat) :
    ∃ arrow ∈ cycle, level arrow.target ≤ level arrow.source := by
  obtain ⟨hne, id, hleads⟩ := h
  by_contra hnone
  have hle := hleads.le level fun arrow harrow =>
    Nat.lt_of_not_le fun hle => hnone ⟨arrow, harrow, hle⟩
  have hpos := List.length_pos_of_ne_nil hne
  omega

/-- Each arrow of a way leads to where the next one starts. -/
theorem Leads.cons_targets {start stop : ι} {arrows : List (Arrow ι)}
    (h : diagram.Leads start arrows stop) :
    start :: arrows.map Arrow.target = arrows.map Arrow.source ++ [stop] := by
  induction arrows generalizing start with
  | nil => rw [show start = stop from h, List.map_nil, List.map_nil, List.nil_append]
  | cons arrow rest ih =>
    obtain ⟨_, rfl, hrest⟩ := h
    rw [List.map_cons, ih hrest, List.map_cons, List.cons_append]

namespace IsCycle

variable {cycle : List (Arrow ι)}

/-- A cycle leads to the boxes that it passes. -/
theorem targets_perm (h : diagram.IsCycle cycle) :
    (cycle.map Arrow.target).Perm (cycle.map Arrow.source) := by
  obtain ⟨_, id, hleads⟩ := h
  have hshift : (id :: cycle.map Arrow.target).Perm (id :: cycle.map Arrow.source) := by
    rw [hleads.cons_targets]
    exact List.perm_append_singleton _ _
  exact hshift.cons_inv

/-- What every arrow of a cycle carries on holds all around. -/
theorem carry {P : ι → Prop} (h : diagram.IsCycle cycle)
    (hcarry : ∀ arrow ∈ cycle, P arrow.source → P arrow.target) {arrow : Arrow ι}
    (harrow : arrow ∈ cycle) (hP : P arrow.source) : ∀ other ∈ cycle, P other.source := by
  obtain ⟨_, id, hleads⟩ := h
  obtain ⟨rest, hsuffix, hrest⟩ := hleads.enter (List.mem_map_of_mem harrow)
  -- From the arrow on to where the cycle was started, and from there all around.
  have hid := (hrest.carry hP fun other hother => hcarry other (hsuffix.subset hother)).1
  exact (hleads.carry hid hcarry).2

/-- A region can be entered at one box only. A cycle that passes no box twice,
and has an arrow from inside the region to that box, stays inside. -/
theorem confined (h : diagram.IsCycle cycle) (region : ι → Prop) {entry : ι}
    (hnodup : (cycle.map Arrow.source).Nodup)
    (hentered : ∀ arrow ∈ cycle, ¬region arrow.source → region arrow.target →
      arrow.target = entry)
    {back : Arrow ι} (hback : back ∈ cycle) (hsource : region back.source)
    (htarget : back.target = entry) {arrow : Arrow ι} (harrow : arrow ∈ cycle) :
    region arrow.source ∧ region arrow.target := by
  -- Only one arrow of the cycle leads to the box, so no other one enters the region.
  have htargets : (cycle.map Arrow.target).Nodup := h.targets_perm.nodup_iff.2 hnodup
  have houtside : ∀ arrow ∈ cycle, ¬region arrow.source → ¬region arrow.target := by
    intro arrow harrow hout hin
    have heq := hentered arrow harrow hout hin
    cases List.inj_on_of_nodup_map htargets harrow hback (heq.trans htarget.symm)
    exact hout hsource
  have hinside : ∀ arrow ∈ cycle, region arrow.source := by
    intro arrow harrow
    by_contra hout
    exact h.carry (P := fun id => ¬region id) houtside harrow hout back hback hsource
  refine ⟨hinside arrow harrow, ?_⟩
  have hpassed := h.targets_perm.subset (List.mem_map_of_mem harrow)
  obtain ⟨next, hnext, heq⟩ := List.mem_map.1 hpassed
  rw [← heq]
  exact hinside next hnext

end IsCycle

/-- A way that is left when arrows are taken away was one before, and none of
those was on it. -/
theorem Leads.of_without {keys : List Text} {start stop : ι} {arrows : List (Arrow ι)}
    (h : (diagram.without keys).Leads start arrows stop) :
    diagram.Leads start arrows stop ∧ ∀ arrow ∈ arrows, arrow.key ∉ keys := by
  induction arrows generalizing start with
  | nil => exact ⟨h, by simp⟩
  | cons first rest ih =>
    obtain ⟨⟨hmem, hends⟩, rfl, hrest⟩ := h
    obtain ⟨hmem, hkey⟩ := List.mem_filter.1 hmem
    obtain ⟨hleads, hkeys⟩ := ih hrest
    refine ⟨⟨⟨hmem, hends⟩, rfl, hleads⟩, ?_⟩
    intro arrow harrow
    rcases List.mem_cons.1 harrow with rfl | harrow
    · simpa using hkey
    · exact hkeys arrow harrow

/-- A cycle that is left when arrows are taken away was one before, and none
of those was on it. -/
theorem IsCycle.of_without {keys : List Text} {cycle : List (Arrow ι)}
    (h : (diagram.without keys).IsCycle cycle) :
    diagram.IsCycle cycle ∧ ∀ arrow ∈ cycle, arrow.key ∉ keys := by
  obtain ⟨hne, id, hleads⟩ := h
  obtain ⟨hleads, hkeys⟩ := hleads.of_without
  exact ⟨⟨hne, id, hleads⟩, hkeys⟩

/-! ### Predecessors -/

variable [DecidableEq ι]

/-- The links are the arrows between boxes. -/
theorem mem_links {link : Link diagram} : link ∈ diagram.links ↔ link.toArrow ∈ diagram.arrows := by
  unfold links
  rw [List.mem_filterMap]
  constructor
  · rintro ⟨arrow, harrow, hlink⟩
    unfold link? at hlink
    split at hlink
    · cases hlink
      exact harrow
    · cases hlink
  · intro h
    exact ⟨link.toArrow, h, by simp [link?, link.source_mem, link.target_mem]⟩

/-- The boxes in front of one are the sources of the arrows that join boxes to it. -/
theorem map_val_predecessors (diagram : Diagram ι) {id : ι} (h : id ∈ diagram.ids) :
    (diagram.predecessors id).map Subtype.val =
      (diagram.arrows.filter fun arrow => arrow.target = id ∧ arrow.source ∈ diagram.ids).map
        Arrow.source := by
  rw [predecessors, incoming, links, List.map_map]
  induction diagram.arrows with
  | nil => rfl
  | cons arrow arrows ih =>
    by_cases hjoins : arrow.source ∈ diagram.ids ∧ arrow.target ∈ diagram.ids
    · rw [List.filterMap_cons_some (b := ⟨arrow, hjoins.1, hjoins.2⟩) (dif_pos hjoins)]
      by_cases htarget : arrow.target = id
      · rw [List.filter_cons_of_pos (by simpa using htarget), List.map_cons, ih,
          List.filter_cons_of_pos (by simp [htarget, hjoins.1]), List.map_cons]
        rfl
      · rw [List.filter_cons_of_neg (by simpa using htarget), ih,
          List.filter_cons_of_neg (by simp [htarget])]
    -- An arrow to the box that joins nothing starts nowhere.
    · have hother : ¬(arrow.target = id ∧ arrow.source ∈ diagram.ids) := by
        rintro ⟨rfl, hsource⟩
        exact hjoins ⟨hsource, h⟩
      rw [List.filterMap_cons_none (dif_neg hjoins), ih,
        List.filter_cons_of_neg (by simpa using hother)]

/-- One box precedes another if an arrow joins them. -/
theorem precedes_iff {m n : ι} : Precedes (predecessorsOf diagram) m n ↔
    ∃ arrow, diagram.Joins arrow ∧ arrow.source = m ∧ arrow.target = n := by
  change m ∈ (diagram.predecessors n).map Subtype.val ↔ _
  rw [predecessors, List.map_map, List.mem_map]
  constructor
  · rintro ⟨link, hlink, rfl⟩
    obtain ⟨hlink, htarget⟩ := List.mem_filter.1 hlink
    exact ⟨link.toArrow, ⟨mem_links.1 hlink, link.source_mem, link.target_mem⟩, rfl,
      by simpa using htarget⟩
  · rintro ⟨arrow, ⟨hmem, hsource, htarget⟩, rfl, rfl⟩
    refine ⟨⟨arrow, hsource, htarget⟩, List.mem_filter.2 ⟨mem_links.2 hmem, ?_⟩, rfl⟩
    simp

/-- A box that can be reached can be reached without passing a box twice. -/
theorem exists_leads {m n : ι}
    (h : Reaches (predecessorsOf diagram) m n) :
    ∃ arrows, diagram.Leads m arrows n ∧ (n :: arrows.map Arrow.source).Nodup := by
  induction h using Relation.ReflTransGen.head_induction_on with
  | refl => exact ⟨[], rfl, by simp⟩
  | head hstep _ ih =>
    obtain ⟨arrow, harrow, rfl, rfl⟩ := precedes_iff.1 hstep
    obtain ⟨arrows, hleads, hnodup⟩ := ih
    -- Where the box is on the way already, the way is entered there.
    by_cases hpassed : arrow.source ∈ n :: arrows.map Arrow.source
    · rcases List.mem_cons.1 hpassed with hstop | hpassed
      · exact ⟨[], hstop, by simp⟩
      · obtain ⟨rest, hsuffix, hrest⟩ := hleads.enter hpassed
        have hsources := (hsuffix.sublist.map Arrow.source).cons_cons n
        exact ⟨rest, hrest, hnodup.sublist hsources⟩
    · refine ⟨arrow :: arrows, ⟨harrow, rfl, hleads⟩, ?_⟩
      rw [List.map_cons, (List.Perm.swap _ _ _).nodup_iff]
      exact List.nodup_cons.2 ⟨hpassed, hnodup⟩

/-- An arrow whose target leads back to its source lies on a cycle that passes
no box twice. -/
theorem exists_cycle {arrow : Arrow ι} (harrow : diagram.Joins arrow)
    (hback : Reaches (predecessorsOf diagram) arrow.target arrow.source) :
    ∃ cycle, diagram.IsCycle cycle ∧ arrow ∈ cycle ∧ (cycle.map Arrow.source).Nodup := by
  obtain ⟨arrows, hleads, hnodup⟩ := exists_leads hback
  have hcycle : diagram.IsCycle (arrow :: arrows) :=
    ⟨List.cons_ne_nil _ _, arrow.source, harrow, rfl, hleads⟩
  exact ⟨arrow :: arrows, hcycle, List.mem_cons_self, hnodup⟩

/-- Without cycles, no box leads to one of its predecessors. -/
theorem Acyclic.not_reaches (h : diagram.Acyclic) {m n : ι}
    (hprec : Precedes (predecessorsOf diagram) m n) : ¬Reaches (predecessorsOf diagram) n m := by
  intro hback
  obtain ⟨arrow, harrow, rfl, rfl⟩ := precedes_iff.1 hprec
  obtain ⟨cycle, hcycle, _⟩ := exists_cycle harrow hback
  exact h cycle hcycle

end Flowchart.Diagram
