import Flowchart.Proofs.Kinds.Marks
import Flowchart.Proofs.Outline.Order
import Flowchart.Proofs.Outline.Served

/-!
# `Flowchart.Proofs.Outline.Constructs`: where constructs come from

A construct inside the outline of a request is the outline of the request
itself, or it lies inside the outline of one of its parts. Going down part by
part, a construct inside the outline of a tree is what was drafted for some
request that was served for the tree, and its category is that of the node of
the request.

* `category?`: the category of the nodes that become a construct;
* `within_part_of_category`: a construct inside the outline of a request;
* `Served.exists_construct`, `exists_served`: every construct is what a request
  was served for;
* `Served.mem_subtrees`, `Served.exists_subtree`: requests are about nodes of
  the tree.
-/

set_option autoImplicit false

namespace Flowchart.Draft

open Outline

/-! ### Out of an outline and into its parts -/

namespace Outline

/-- The category of the nodes that become a construct. -/
def category? : Outline → Option Category
  | .branch _ _ _ _ => some .branch
  | .loop _ _ => some .loop
  | .choice _ _ => some .choice
  | .terminator _ => some .terminator
  | .function _ _ => some .function
  | .statement _ => none
  | .sequel _ _ => none

/-- What has a category is not one thing after another. -/
theorem not_sequel_of_category {outline : Outline} {category : Category}
    (h : outline.category? = some category) (first second : Outline) :
    outline ≠ .sequel first second := by
  rintro rfl
  cases h

/-- An outline inside another one is that one or lies inside a piece of it. -/
theorem Within.cases_head {outer p : Nat × Outline} (h : Within outer p) :
    p = outer ∨ ∃ q ∈ outer.2.pieces outer.1, Within q p := by
  induction h with
  | whole => exact .inl rfl
  | piece h hq ih =>
    right
    rcases ih with rfl | ⟨s, hs, hwithin⟩
    · exact ⟨_, hq, .whole⟩
    · exact ⟨s, hs, hwithin.piece hq⟩

/-- What lies inside one thing after another lies inside one of the two. -/
theorem Within.of_sequel {first second : Outline} {a : Nat} {p : Nat × Outline}
    (h : Within (a, .sequel first second) p) (hp : ∀ first second, p.2 ≠ .sequel first second) :
    Within (a, first) p ∨ Within (a + first.size, second) p := by
  rcases h.cases_head with rfl | ⟨q, hq, hwithin⟩
  · exact absurd rfl (hp first second)
  · simp only [pieces, List.mem_cons, List.not_mem_nil, or_false] at hq
    rcases hq with rfl | rfl
    · exact .inl hwithin
    · exact .inr hwithin

/-- What lies inside a row of links lies inside what was linked before or
inside one of the links. -/
theorem Within.of_foldl_follow {links : List (Option Outline)} {linked : Option Outline}
    {whole : Outline} {a : Nat} {p : Nat × Outline}
    (hwhole : links.foldl follow linked = some whole) (h : Within (a, whole) p)
    (hp : ∀ first second, p.2 ≠ .sequel first second) :
    (∃ first, linked = some first ∧ Within (a, first) p) ∨
      ∃ before link after, links = before ++ some link :: after ∧
        Within (a + sizeIfAny linked + sizes (before.filterMap id), link) p := by
  induction links generalizing linked with
  | nil => exact .inl ⟨whole, hwhole, h⟩
  | cons link links ih =>
    -- What is said of the rest of the row, with this link among the ones before.
    have hrest : ∀ {before after : List (Option Outline)} {inner : Outline},
        links = before ++ some inner :: after →
        Within (a + sizeIfAny (follow linked link) + sizes (before.filterMap id), inner) p →
        ∃ before inner after, link :: links = before ++ some inner :: after ∧
          Within (a + sizeIfAny linked + sizes (before.filterMap id), inner) p := by
      intro before after inner hlinks hwithin
      refine ⟨link :: before, inner, after, by rw [hlinks, List.cons_append], ?_⟩
      rw [size_follow] at hwithin
      cases link with
      | none => exact hwithin
      | some link =>
        rw [List.filterMap_cons]
        simpa only [id_eq, sizes_cons, sizeIfAny, Nat.add_assoc] using hwithin
    rcases ih hwhole with ⟨first, hfirst, hwithin⟩ | ⟨before, inner, after, hlinks, hwithin⟩
    · cases link with
      | none => exact .inl ⟨first, hfirst, hwithin⟩
      | some link =>
        cases linked with
        | none =>
          cases hfirst
          exact .inr ⟨[], first, links, rfl, hwithin⟩
        | some linked =>
          cases hfirst
          rcases hwithin.of_sequel hp with hwithin | hwithin
          · exact .inl ⟨linked, rfl, hwithin⟩
          · exact .inr ⟨[], link, links, rfl, hwithin⟩
    · exact .inr (hrest hlinks hwithin)

/-- An arm that is placed stands behind the arms in front of it. -/
theorem exists_of_mem_placed {arms : List (Flow × Outline)} {a : Nat} {p : Nat × Outline}
    (h : p ∈ placed arms a) :
    ∃ before after, arms.map Prod.snd = before ++ p.2 :: after ∧ p.1 = a + sizes before := by
  induction arms generalizing a with
  | nil => cases h
  | cons arm arms ih =>
    rcases List.mem_cons.1 h with rfl | h
    · exact ⟨[], arms.map Prod.snd, rfl, rfl⟩
    · obtain ⟨before, after, harms, hp⟩ := ih h
      refine ⟨arm.2 :: before, after, by rw [List.map_cons, harms, List.cons_append], ?_⟩
      rw [hp, sizes_cons, Nat.add_assoc]

end Outline

section

variable {table : KindTable} {r : Request}

/-- The parts in front of one that built something, and the ones behind it. -/
theorem exists_of_built {parts : List (Part × Request)} {before after : List Outline}
    {inner : Outline} (h : built table parts = before ++ inner :: after) :
    ∃ front p back, parts = front ++ p :: back ∧ built table front = before ∧
      outline table p.2 = some inner := by
  obtain ⟨front, rest, rfl, hfront, hrest⟩ := List.filterMap_eq_append_iff.1 h
  obtain ⟨skipped, p, back, rfl, hskipped, hp, _⟩ := List.filterMap_eq_cons_iff.1 hrest
  refine ⟨front ++ skipped, p, back, by rw [List.append_assoc], ?_, hp⟩
  rw [built, List.filterMap_append, hfront, List.filterMap_eq_nil_iff.2 hskipped, List.append_nil]

/-- A part of a request, and what it builds inside the outline of the
request, from the block with some number on. -/
structure PartWithin (table : KindTable) (r : Request) (a : Nat) (p : Nat × Outline) : Prop where
  exists_part : ∃ before part q after inner, r.parts table = before ++ (part, q) :: after ∧
    outline table q = some inner ∧
    Within (a + r.lead table + sizes (built table before), inner) p

/-- What lies inside a row of links lies inside what a part builds. -/
theorem partWithin_of_chained (hlead : r.lead table = 0) {whole : Outline}
    (hwhole : chained ((r.parts table).map fun p => outline table p.2) = some whole) {a : Nat}
    {p : Nat × Outline} (h : Within (a, whole) p)
    (hp : ∀ first second, p.2 ≠ .sequel first second) : PartWithin table r a p := by
  rcases h.of_foldl_follow hwhole hp with ⟨_, hnone, _⟩ | ⟨before, inner, after, hlinks, hwithin⟩
  · cases hnone
  · obtain ⟨front, rest, hparts, rfl, hrest⟩ := List.map_eq_append_iff.1 hlinks
    obtain ⟨⟨part, q⟩, back, rfl, hq, _⟩ := List.map_eq_cons_iff.1 hrest
    rw [List.filterMap_map] at hwithin
    exact ⟨front, part, q, back, inner, hparts, hq, hlead ▸ hwithin⟩

/-- What is made of a node in a category is a construct of the category. -/
theorem category_outline (hmode : r.mode = .visit) {category : Category}
    (hcategory : table.category? r.tree.label.kind = some category) {whole : Outline}
    (hwhole : outline table r = some whole) : whole.category? = some category := by
  cases category with
  | branch =>
    cases (outline_branch hmode hcategory).symm.trans hwhole
    rfl
  | loop =>
    cases (outline_loop hmode hcategory).symm.trans hwhole
    rfl
  | choice =>
    cases (outline_choice hmode hcategory).symm.trans hwhole
    rfl
  | terminator =>
    cases (outline_terminator hmode hcategory).symm.trans hwhole
    rfl
  | function =>
    cases (outline_function hmode hcategory).symm.trans hwhole
    rfl

/-- A construct inside the outline of a request is the outline of the request,
or lies inside what a part builds. -/
theorem within_part_of_category {whole : Outline} (hwhole : outline table r = some whole) {a : Nat}
    {p : Nat × Outline} (h : Within (a, whole) p) {category : Category}
    (hp : p.2.category? = some category) :
    (r.mode = .visit ∧ table.category? r.tree.label.kind = some category ∧ p = (a, whole)) ∨
      PartWithin table r a p := by
  have hsequel := not_sequel_of_category hp
  cases hmode : r.mode with
  | chain =>
    rw [outline_chain hmode] at hwhole
    exact .inr (partWithin_of_chained (by simp [Request.lead, hmode]) hwhole h hsequel)
  | visit =>
    cases hcategory : table.category? r.tree.label.kind with
    | none =>
      cases hcontainer : table.isContainer r.tree.label with
      | true =>
        rw [outline_container hmode hcategory hcontainer] at hwhole
        have hlead : r.lead table = 0 := by simp [Request.lead, hmode, hcategory]
        exact .inr (partWithin_of_chained hlead hwhole h hsequel)
      | false =>
        -- A single statement holds nothing, and is in no category.
        rw [outline_leaf hmode hcategory hcontainer, Option.ite_none_right_eq_some] at hwhole
        obtain ⟨_, ⟨⟩⟩ := hwhole
        rcases h.cases_head with rfl | ⟨q, hq, _⟩
        · cases hp
        · cases hq
    | some other =>
      obtain ⟨_, hwhole', headed, harms⟩ := snd_arms hmode hcategory
      cases hwhole.symm.trans hwhole'
      rcases h.cases_head with rfl | ⟨q, hq, hwithin⟩
      · exact .inl ⟨rfl, (category_outline hmode hcategory hwhole).symm.trans hp, rfl⟩
      · right
        rw [headed.pieces] at hq
        obtain ⟨before, after, hbefore, hnumber⟩ := exists_of_mem_placed hq
        obtain ⟨front, ⟨part, s⟩, back, hparts, rfl, hs⟩ := exists_of_built (harms ▸ hbefore)
        refine ⟨front, part, s, back, q.2, hparts, hs, ?_⟩
        have hlead : r.lead table = 1 := by simp [Request.lead, hmode, hcategory]
        rw [hlead, ← hnumber]
        exact hwithin

end

/-! ### Down to the request for a construct -/

namespace Served

variable {table : KindTable} {tree : MarkedTree}

/-- A construct inside the outline of a request is what was drafted for a
request for a node in its category. -/
theorem exists_construct {r : Request} {d : Draft} (h : Served table tree r d) {whole : Outline}
    (hwhole : outline table r = some whole) {p : Nat × Outline} (hwithin : Within (d.next, whole) p)
    {category : Category} (hp : p.2.category? = some category) :
    ∃ q e, Served table tree q e ∧ q.mode = .visit ∧
      table.category? q.tree.label.kind = some category ∧ outline table q = some p.2 ∧
      e.next = p.1 := by
  -- The construct is made for this request, or lies in the outline of one of its parts.
  rcases within_part_of_category hwhole hwithin hp with
    ⟨hmode, hcategory, rfl⟩ | ⟨before, part, q, after, inner, hparts, hq, hwithin⟩
  · exact ⟨r, d, h, hmode, hcategory, hwhole, rfl⟩
  · have hpart := h.part hparts
    rw [← next_upTo hparts (List.cons_ne_nil _ _) d] at hwithin
    exact hpart.exists_construct hq hwithin hp
termination_by r.tree.size
decreasing_by
  have hmem : (part, q) ∈ r.parts table := by simp [hparts]
  exact Request.parts_size_lt hmem

/-- Requests are about subtrees of the tree. -/
theorem mem_subtrees {r : Request} {d : Draft} (h : Served table tree r d) :
    r.tree ∈ tree.subtrees := by
  induction h with
  | root => exact Tree.mem_subtrees_self tree
  | @part r d before after part q _ hparts ih =>
    have hmem : (part, q) ∈ r.parts table := by simp [hparts]
    exact Tree.mem_subtrees_trans ih (Request.mem_subtrees_of_mem_parts hmem)

/-- Requests are about nodes of the tree. -/
theorem exists_subtree {tree : SyntaxTree} {r : Request} {d : Draft}
    (h : Served table (table.mark tree) r d) :
    ∃ s ∈ tree.subtrees, s.label = r.tree.label.toNodeInfo := by
  have hmem := h.mem_subtrees
  rw [KindTable.subtrees_mark] at hmem
  obtain ⟨s, hs, hmark⟩ := List.mem_map.1 hmem
  exact ⟨s, hs, hmark ▸ (table.mark_label s).symm⟩

end Served

/-- A construct inside the outline of a tree is what was drafted for a request
that was served for the tree. -/
theorem exists_served {table : KindTable} {tree : MarkedTree} {whole : Outline}
    (hwhole : outline table (rootRequest table tree) = some whole) {p : Nat × Outline}
    (hwithin : Within (0, whole) p) {category : Category} (hp : p.2.category? = some category) :
    ∃ q e, Served table tree q e ∧ q.mode = .visit ∧
      table.category? q.tree.label.kind = some category ∧ outline table q = some p.2 ∧
      e.next = p.1 := by
  have hroot : Served table tree (rootRequest table tree) (opening tree) := .root
  rw [← opening_next tree] at hwithin
  exact hroot.exists_construct hwhole hwithin hp

end Flowchart.Draft
