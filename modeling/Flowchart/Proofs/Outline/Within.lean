import Flowchart.Proofs.Outline.Drafted
import Flowchart.Proofs.Outline.Pieces

/-!
# `Flowchart.Proofs.Outline.Within`: outlines at any depth

A part of a request that builds something has its outline inside the outline
of the request, behind the header, if there is one, and behind what the parts
in front of it built. In a row of links it need not be a piece: it sits as
deep as there are links behind it.

* `Within`: an outline lies inside another one, at any depth;
* `within_link`: the links of a row lie inside the outline of the row;
* `within_part`: the outline of a part lies inside that of the request.
-/

set_option autoImplicit false

namespace Flowchart.Draft

namespace Outline

/-- An outline lies inside another one, at any depth. Both come with the
number of their first block. -/
inductive Within (outer : Nat × Outline) : Nat × Outline → Prop where
  | whole : Within outer outer
  | piece {p q : Nat × Outline} (h : Within outer p) (hq : q ∈ p.2.pieces p.1) : Within outer q

/-- What is inside something inside is inside. -/
theorem Within.trans {p q outer : Nat × Outline} (h : Within outer p) (h' : Within p q) :
    Within outer q := by
  induction h' with
  | whole => exact h
  | piece _ hq ih => exact ih.piece hq

/-- How many blocks a row of outlines has. -/
def sizes : List Outline → Nat
  | [] => 0
  | outline :: outlines => outline.size + sizes outlines

/-- No outlines have no blocks. -/
@[simp]
theorem sizes_nil : sizes [] = 0 := rfl

/-- One outline more has its blocks and those of the others. -/
@[simp]
theorem sizes_cons (outline : Outline) (outlines : List Outline) :
    sizes (outline :: outlines) = outline.size + sizes outlines := rfl

/-! ### Rows of links -/

/-- A row that is linked has the blocks of all its links. -/
theorem size_foldl_follow (links : List (Option Outline)) (linked : Option Outline) :
    sizeIfAny (links.foldl follow linked) = sizeIfAny linked + sizes (links.filterMap id) := by
  induction links generalizing linked with
  | nil => rfl
  | cons link links ih =>
    rw [List.foldl_cons, ih, size_follow]
    cases link with
    | none => rfl
    | some link =>
      simp only [sizeIfAny, List.filterMap_cons, id_eq, sizes_cons]
      omega

/-- What was linked first stays at the front of what it is linked with. -/
theorem within_foldl_follow (links : List (Option Outline)) (linked : Outline) (a : Nat) :
    ∃ outline, links.foldl follow (some linked) = some outline ∧
      Within (a, outline) (a, linked) := by
  induction links generalizing linked with
  | nil => exact ⟨linked, rfl, .whole⟩
  | cons link links ih =>
    cases link with
    | none => exact ih linked
    | some link =>
      obtain ⟨outline, houtline, hwithin⟩ := ih (.sequel linked link)
      exact ⟨outline, houtline, hwithin.piece List.mem_cons_self⟩

/-- The links of a row lie inside the outline of the row. -/
theorem within_link (before after : List (Option Outline)) (link : Outline) (a : Nat) :
    ∃ outline, chained (before ++ some link :: after) = some outline ∧
      Within (a, outline) (a + sizes (before.filterMap id), link) := by
  have hsize := size_foldl_follow before none
  rw [chained, List.foldl_append, List.foldl_cons]
  -- The link comes first, or behind all that was linked before.
  cases hlinked : before.foldl follow none with
  | none =>
    rw [hlinked] at hsize
    simp only [sizeIfAny, Nat.zero_add] at hsize
    rw [← hsize]
    exact within_foldl_follow after link a
  | some linked =>
    rw [hlinked] at hsize
    simp only [sizeIfAny, Nat.zero_add] at hsize
    obtain ⟨outline, houtline, hwithin⟩ := within_foldl_follow after (.sequel linked link) a
    refine ⟨outline, houtline, hwithin.piece ?_⟩
    rw [← hsize]
    exact List.mem_cons_of_mem _ List.mem_cons_self

/-! ### Arms -/

/-- An arm stands behind the arms in front of it. -/
theorem mem_placed {arms : List (Flow × Outline)} {before after : List Outline} {arm : Outline}
    (h : arms.map Prod.snd = before ++ arm :: after) (a : Nat) :
    (a + sizes before, arm) ∈ placed arms a := by
  -- Each arm in front moves the number on by its size.
  induction before generalizing arms a with
  | nil =>
    cases arms with
    | nil => cases h
    | cons first arms =>
      obtain ⟨rfl, _⟩ := List.cons.inj h
      exact List.mem_cons_self
  | cons outline before ih =>
    cases arms with
    | nil => cases h
    | cons first arms =>
      rw [List.map_cons, List.cons_append] at h
      obtain ⟨rfl, htail⟩ := List.cons.inj h
      have hmem := ih htail (a + first.2.size)
      rw [Nat.add_assoc] at hmem
      exact List.mem_cons_of_mem _ hmem

/-- A side has one outline, or none. -/
theorem snd_side (flow : Flow) (part : Option Outline) :
    (side flow part).map Prod.snd = part.toList := by
  cases part <;> rfl

end Outline

/-! ### Parts of a request -/

section

open Outline

variable {table : KindTable} {r : Request}

/-- The outlines of the parts that build something. -/
def built (table : KindTable) (parts : List (Part × Request)) : List Outline :=
  parts.filterMap fun p => outline table p.2

/-- How many blocks are made before the first part is served. -/
def Request.lead (table : KindTable) (r : Request) : Nat :=
  match r.mode with
  | .chain => 0
  | .visit => if (table.category? r.tree.label.kind).isSome then 1 else 0

/-- What is built inside a child is the outline of the child, if there is one.
-/
theorem built_inside (part : Part) (child? : Option MarkedTree) :
    built table (Request.inside? part r.path child?) =
      (insideOutline table r.path child?).toList := by
  cases child? with
  | none => rfl
  | some child =>
    cases h : outline table ⟨.chain, child, r.path⟩ <;>
      simp [built, Request.inside?, insideOutline, h]

/-- The arms of a choice are what its parts build. -/
theorem snd_armsOf (parts : List (Part × Request))
    (h : ∀ p ∈ parts, ∃ index names, p.1 = .arm index names) :
    (armsOf (parts.map fun p => (p.1, outline table p.2))).map Prod.snd = built table parts := by
  induction parts with
  | nil => rfl
  | cons p parts ih =>
    obtain ⟨index, names, hp⟩ := h p List.mem_cons_self
    have ih := ih fun p hp => h p (List.mem_cons_of_mem _ hp)
    cases hmade : outline table p.2 <;>
      simpa [armsOf, built, List.filterMap_cons, hp, hmade] using ih

/-- The arms of a construct are what its parts build. -/
theorem snd_arms {category : Category} (hmode : r.mode = .visit)
    (hcategory : table.category? r.tree.label.kind = some category) :
    ∃ whole, outline table r = some whole ∧ whole.Headed ∧
      whole.arms.map Prod.snd = built table (r.parts table) := by
  have hheaded (whole : Outline) (h : ∀ first second, whole ≠ .sequel first second) :
      whole.Headed :=
    whole.sequel_or_headed.resolve_left fun ⟨first, second, hsequel⟩ => h first second hsequel
  -- Arms in the order of the parts, those that build nothing being left out.
  cases category with
  | branch =>
    refine ⟨_, outline_branch hmode hcategory, hheaded _ (by simp), ?_⟩
    simp only [Outline.arms, List.map_append, snd_side, Request.parts, hmode, hcategory, built,
      List.filterMap_append]
    rw [← built, ← built, built_inside, built_inside]
    rfl
  | loop =>
    refine ⟨_, outline_loop hmode hcategory, hheaded _ (by simp), ?_⟩
    simp only [Outline.arms, snd_side, Request.parts, hmode, hcategory]
    exact (built_inside _ _).symm
  | choice =>
    refine ⟨_, outline_choice hmode hcategory, hheaded _ (by simp), ?_⟩
    refine snd_armsOf _ fun p hp => ?_
    simp only [Request.parts, hmode, hcategory] at hp
    obtain ⟨⟨arm, index⟩, _, rfl⟩ := List.mem_map.1 hp
    exact ⟨index, _, rfl⟩
  | terminator =>
    refine ⟨_, outline_terminator hmode hcategory, hheaded _ (by simp), ?_⟩
    simp [Outline.arms, Request.parts, hmode, hcategory, built]
  | function =>
    refine ⟨_, outline_function hmode hcategory, hheaded _ (by simp), ?_⟩
    simp only [Outline.arms, snd_side, Request.parts, hmode, hcategory]
    exact (built_inside _ _).symm

/-- A request without a category builds a row of links, or has no parts. -/
theorem outline_links (hlead : r.lead table = 0) (hparts : r.parts table ≠ []) :
    outline table r = chained ((r.parts table).map fun p => outline table p.2) := by
  cases hmode : r.mode with
  | chain => exact outline_chain hmode
  | visit =>
    have hcategory : table.category? r.tree.label.kind = none := by
      simpa [Request.lead, hmode] using hlead
    cases hcontainer : table.isContainer r.tree.label with
    | true => exact outline_container hmode hcategory hcontainer
    | false => simp [Request.parts, hmode, hcategory, hcontainer] at hparts

/-- The outline of a part lies inside that of the request. -/
theorem within_part {before after : List (Part × Request)} {part : Part} {q : Request}
    {inner : Outline} (hparts : r.parts table = before ++ (part, q) :: after)
    (hq : outline table q = some inner) (a : Nat) :
    ∃ whole, outline table r = some whole ∧
      Within (a, whole) (a + r.lead table + sizes (built table before), inner) := by
  have hbuilt : built table (r.parts table) = built table before ++ inner :: built table after := by
    simp only [built, hparts, List.filterMap_append, List.filterMap_cons, hq]
  -- A row of links nests its sequels to the left; a construct has its parts as its arms, behind
  -- one header.
  by_cases hlead : r.lead table = 0
  · rw [outline_links hlead (by simp [hparts]), hparts, List.map_append, List.map_cons, hq, hlead]
    have h := within_link (before.map fun p => outline table p.2)
      (after.map fun p => outline table p.2) inner a
    rwa [List.filterMap_map] at h
  · cases hmode : r.mode with
    | chain => simp [Request.lead, hmode] at hlead
    | visit =>
      cases hcategory : table.category? r.tree.label.kind with
      | none => simp [Request.lead, hmode, hcategory] at hlead
      | some category =>
        obtain ⟨whole, hwhole, headed, harms⟩ := snd_arms hmode hcategory
        refine ⟨whole, hwhole, Within.whole.piece ?_⟩
        have hone : r.lead table = 1 := by simp [Request.lead, hmode, hcategory]
        rw [headed.pieces, hone]
        exact mem_placed (harms.trans hbuilt) (a + 1)

end

end Flowchart.Draft
