import Flowchart.Proofs.Outline.Basic

/-!
# `Flowchart.Proofs.Outline.Request`: the outline of a request

What will be made of a request follows from the table and the tree alone, by
recursion into the parts of the request. Nothing is made of a row of links
in which nothing is made of any link, nor of a leaf that is a comment or has
no name.

* `outline`: the outline of a request, none where nothing is made;
* `outline_branch` and so on: the outline for each kind of construct.
-/

set_option autoImplicit false

namespace Flowchart.Draft

namespace Outline

/-- A part behind what was linked so far. -/
def follow : Option Outline → Option Outline → Option Outline
  | linked, none => linked
  | none, some next => some next
  | some linked, some next => some (.sequel linked next)

/-- A relation that sequels keep is kept where parts may have built nothing. -/
theorem follow_rel {R : Outline → Outline → Prop}
    (hsequel : ∀ {first first' second second'}, R first first' → R second second' →
      R (.sequel first second) (.sequel first' second'))
    {linked linked' next next' : Option Outline} (h : Option.Rel R linked linked')
    (h' : Option.Rel R next next') :
    Option.Rel R (follow linked next) (follow linked' next') := by
  cases h' with
  | none => exact h
  | some h' =>
    cases h with
    | none => exact .some h'
    | some h => exact .some (hsequel h h')

/-- The outline of a row of links. -/
def chained (links : List (Option Outline)) : Option Outline :=
  links.foldl follow none

/-- What was made of the body. -/
def bodyOf : List (Part × Option Outline) → Option Outline
  | [] => none
  | (.body, made) :: _ => made
  | _ :: parts => bodyOf parts

/-- What was made of the other part of a branch. -/
def alternativeOf : List (Part × Option Outline) → Option Outline
  | [] => none
  | (.alternative, made) :: _ => made
  | _ :: parts => alternativeOf parts

/-- The arms that built something. -/
def armsOf (parts : List (Part × Option Outline)) : List (Flow × Outline) :=
  parts.filterMap fun
    | (.arm index names, some made) => some (.arm index names, made)
    | _ => none

end Outline

namespace Request

/-- Where the blocks of a request come from. -/
def origin (r : Request) (caption : Caption) : Origin :=
  ⟨r.tree.label.toNodeInfo, r.path, caption⟩

/-- The outline of a request, given those of its parts. -/
def assemble (table : KindTable) (r : Request) (parts : List (Part × Option Outline)) :
    Option Outline :=
  let infoOf (t : Option MarkedTree) : Option NodeInfo := t.map fun t => t.label.toNodeInfo
  let condition := infoOf (r.tree.condition? table)
  match r.mode with
  | .chain => Outline.chained (parts.map Prod.snd)
  | .visit =>
    match table.category? r.tree.label.kind with
    | some .branch =>
      some (.branch (r.origin (.branch condition)) (r.tree.child? table .alternatives).isSome
        (Outline.bodyOf parts) (Outline.alternativeOf parts))
    | some .loop =>
      let word := (loopWord? r.tree.label.kind).getD []
      some (.loop (r.origin (.loop word condition)) (Outline.bodyOf parts))
    | some .choice => some (.choice (r.origin .choice) (Outline.armsOf parts))
    | some .terminator => some (.terminator (r.origin .whole))
    | some .function =>
      some (.function (r.origin (.function (infoOf (r.tree.name? table)))) (Outline.bodyOf parts))
    | none =>
      if table.isContainer r.tree.label then Outline.chained (parts.map Prod.snd)
      else if r.tree.label.isNamed && !table.isComment r.tree.label.kind then
        some (.statement (r.origin .whole))
      else none

end Request

/-- The outline of a request. -/
def outline (table : KindTable) (r : Request) : Option Outline :=
  r.assemble table ((r.parts table).attach.map fun ⟨(part, q), _⟩ => (part, outline table q))
termination_by r.tree.size
decreasing_by exact Request.parts_size_lt ‹_›

/-- The outline of a request is assembled from those of its parts. -/
theorem outline_eq (table : KindTable) (r : Request) :
    outline table r =
      r.assemble table ((r.parts table).map fun p => (p.1, outline table p.2)) := by
  rw [outline, ← List.attach_map_val (l := r.parts table)]

/-! ### Each kind of construct -/

section

open Outline

variable {table : KindTable} {r : Request}

/-- What is made of the chain inside a child. -/
def insideOutline (table : KindTable) (path : Path) (child? : Option MarkedTree) :
    Option Outline :=
  child?.bind fun child => outline table ⟨.chain, child, path⟩

/-- What is made of the chain inside the first child in a role. -/
def childOutline (table : KindTable) (r : Request) (role : Role) : Option Outline :=
  insideOutline table r.path (r.tree.child? table role)

/-- What a node says, if it is there. -/
def infoOf (t : Option MarkedTree) : Option NodeInfo :=
  t.map fun t => t.label.toNodeInfo

/-- The outline of a branch. -/
theorem outline_branch (hmode : r.mode = .visit)
    (hcategory : table.category? r.tree.label.kind = some .branch) :
    outline table r = some (.branch (r.origin (.branch (infoOf (r.tree.condition? table))))
      (r.tree.child? table .alternatives).isSome (childOutline table r .bodies)
      (childOutline table r .alternatives)) := by
  rw [outline_eq]
  simp only [Request.assemble, Request.parts, hmode, hcategory, childOutline]
  cases r.tree.child? table .bodies <;> cases r.tree.child? table .alternatives <;> rfl

/-- The outline of a loop. -/
theorem outline_loop (hmode : r.mode = .visit)
    (hcategory : table.category? r.tree.label.kind = some .loop) :
    outline table r = some (.loop (r.origin (.loop ((Request.loopWord? r.tree.label.kind).getD [])
      (infoOf (r.tree.condition? table)))) (childOutline table r .bodies)) := by
  rw [outline_eq]
  simp only [Request.assemble, Request.parts, hmode, hcategory, childOutline]
  cases r.tree.child? table .bodies <;> rfl

/-- The outline of a choice. -/
theorem outline_choice (hmode : r.mode = .visit)
    (hcategory : table.category? r.tree.label.kind = some .choice) :
    outline table r = some (.choice (r.origin .choice)
      (armsOf ((r.parts table).map fun p => (p.1, outline table p.2)))) := by
  rw [outline_eq]
  simp only [Request.assemble, hmode, hcategory]

/-- The outline of a terminator. -/
theorem outline_terminator (hmode : r.mode = .visit)
    (hcategory : table.category? r.tree.label.kind = some .terminator) :
    outline table r = some (.terminator (r.origin .whole)) := by
  rw [outline_eq]
  simp only [Request.assemble, hmode, hcategory]

/-- The outline of a function. -/
theorem outline_function (hmode : r.mode = .visit)
    (hcategory : table.category? r.tree.label.kind = some .function) :
    outline table r = some (.function (r.origin (.function (infoOf (r.tree.name? table))))
      (childOutline table r .bodies)) := by
  rw [outline_eq]
  simp only [Request.assemble, Request.parts, hmode, hcategory, childOutline]
  cases r.tree.child? table .bodies <;> rfl

/-- The outline of a row links those of its parts. -/
theorem outline_chain (hmode : r.mode = .chain) :
    outline table r = chained ((r.parts table).map fun p => outline table p.2) := by
  rw [outline_eq]
  simp only [Request.assemble, hmode, List.map_map, Function.comp_def]

/-- The outline of a container links those of its parts. -/
theorem outline_container (hmode : r.mode = .visit)
    (hcategory : table.category? r.tree.label.kind = none)
    (hcontainer : table.isContainer r.tree.label = true) :
    outline table r = chained ((r.parts table).map fun p => outline table p.2) := by
  rw [outline_eq]
  simp [Request.assemble, hmode, hcategory, hcontainer, Function.comp_def]

/-- The outline of a node without structure is a statement, or nothing for
comments and tokens. -/
theorem outline_leaf (hmode : r.mode = .visit)
    (hcategory : table.category? r.tree.label.kind = none)
    (hcontainer : table.isContainer r.tree.label = false) :
    outline table r =
      if r.tree.label.isNamed && !table.isComment r.tree.label.kind then
        some (.statement (r.origin .whole))
      else none := by
  rw [outline_eq]
  simp [Request.assemble, hmode, hcategory, hcontainer]

end

end Flowchart.Draft
