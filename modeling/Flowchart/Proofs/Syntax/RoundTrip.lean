import Mathlib.Data.List.Forall2
import Flowchart.Proofs.Syntax.Reading

/-!
# `Flowchart.Proofs.Syntax.RoundTrip`: a tree is read as it was written

There is one way to write a tree and there are many to spell it. Of four
names a second spelling will do, a position may be a pair, and an object may
have members that say nothing of a node. Each node of a tree can be spelled
in a way of its own (`Spells`), with its members in any order.

Reading takes all of these for the tree that was written. It asks that every
node says a kind: an empty one is written like any other and then refused.
A tree that was itself read from a value says its kinds, so writing it gives
a value that stands for the same tree, whatever it was read from. The value
may well be another one, since offsets that are texts or truth values are
written as the numbers that they count as.

* `SpellsPosition`, `Spells`: how a position and a tree may be spelled;
* `spells_toJson`: writing is a way to spell;
* `first?_eq_said`: whatever the spelling, what a field says is found under
  its first name, or else under the second;
* `ofJson_of_spells`: what is spelled is read;
* `ofJson_spelled`: writing and reading, in both directions.
-/

set_option autoImplicit false

namespace Flowchart

open Json (Members)

/-! ### The names of members -/

/-- What an object says of a node. -/
inductive Field where
  | kind
  | start
  | stop
  | startPosition
  | stopPosition
  | isNamed
  | children
deriving DecidableEq, Repr

/-- The two conventions for names: the one in which trees are written, and
another one that is read. -/
inductive Convention where
  | written
  | other
deriving DecidableEq, Repr

namespace Field

/-- The fields in the order in which they are written. -/
def all : List Field :=
  [.kind, .start, .stop, .startPosition, .stopPosition, .isNamed, .children]

/-- The name of a field. Only four of them have another one. -/
def name : Field → Convention → String
  | .kind, .written => "kind"
  | .kind, .other => "type"
  | .start, _ => "start"
  | .stop, _ => "end"
  | .startPosition, .written => "startPosition"
  | .startPosition, .other => "start_position"
  | .stopPosition, .written => "endPosition"
  | .stopPosition, .other => "end_position"
  | .isNamed, .written => "isNamed"
  | .isNamed, .other => "is_named"
  | .children, _ => "children"

/-- The field that a name stands for. -/
def ofName? (name : Text) : Option Field :=
  all.find? fun field =>
    Text.ofString (field.name .written) == name || Text.ofString (field.name .other) == name

/-- A field is found under each of its names. -/
theorem ofName?_name (field : Field) (convention : Convention) :
    ofName? (Text.ofString (field.name convention)) = some field := by
  cases field <;> cases convention <;> decide

/-- Every field is in the list. -/
theorem mem_all (field : Field) : field ∈ all := by
  cases field <;> decide

end Field

/-! ### Spellings -/

/-- The ways to spell a position: an object, or a pair. -/
inductive SpellsPosition (position : Position) : Json → Prop where
  | members {members : Members} (extra : Members)
      (hextra : ∀ member ∈ extra, member.1 ≠ "row" ∧ member.1 ≠ "column")
      (hmembers : members.Perm
        (([("row", .int position.row), ("column", .int position.column)] : Members) ++ extra)) :
      SpellsPosition position (.object members)
  | pair : SpellsPosition position (.array [.int position.row, .int position.column])

/-- The member for a field of a node, from what its positions and its children
are spelled as. -/
def NodeInfo.said (info : NodeInfo) (startPosition stopPosition : Json) (items : List Json) :
    Field → Json
  | .kind => info.kind
  | .start => .int info.start
  | .stop => .int info.stop
  | .startPosition => startPosition
  | .stopPosition => stopPosition
  | .isNamed => .bool info.isNamed
  | .children => .array items

namespace SyntaxTree

/-- The ways to spell a tree: an object for each node, with a name for each
field by either convention, and with members of other names among them. -/
inductive Spells : SyntaxTree → Json → Prop where
  | node {info : NodeInfo} {children : List SyntaxTree} {members : Members}
      {startPosition stopPosition : Json} {items : List Json} (convention : Field → Convention)
      (extra : Members) (hstart : SpellsPosition info.startPosition startPosition)
      (hstop : SpellsPosition info.stopPosition stopPosition)
      (hchildren : List.Forall₂ Spells children items)
      (hextra : ∀ member ∈ extra, Field.ofName? member.1 = none)
      (hmembers : members.Perm (Field.all.map (fun field =>
        (Text.ofString (field.name (convention field)),
          info.said startPosition stopPosition items field)) ++ extra)) :
      Spells (.node info children) (.object members)

/-- A row is written tree by tree. -/
theorem toJsons_eq_map (ts : List SyntaxTree) : toJsons ts = ts.map toJson := by
  induction ts with
  | nil => rfl
  | cons t ts ih => rw [toJsons, ih, List.map_cons]

/-- A position is spelled by what it is written as. -/
theorem spells_positionJson (position : Position) :
    SpellsPosition position (positionJson position) :=
  .members [] nofun (.refl _)

/-- Writing is a way to spell. -/
theorem spells_toJson (t : SyntaxTree) : Spells t t.toJson := by
  induction t using Tree.induction with
  | node info children ih =>
    rw [toJson, toJsons_eq_map]
    have hchildren : List.Forall₂ Spells children (children.map toJson) :=
      List.forall₂_map_right_iff.2 (List.forall₂_same.2 ih)
    exact .node (fun _ => .written) [] (spells_positionJson _) (spells_positionJson _)
      hchildren nofun (.refl _)

/-! ### Reading what is spelled -/

/-- A position is read from any spelling of it. -/
theorem toPosition_of_spells {position : Position} {value : Json}
    (h : SpellsPosition position value) : value.toPosition = .ok position := by
  cases h with
  | pair => rfl
  | @members members extra hextra hmembers =>
    -- The extra members are named otherwise, so they are never found first.
    have hrow : members.lookup "row" = some (.int position.row) := by
      refine Members.lookup_eq_some (hmembers.mem_iff.2 (by simp)) fun other hother => ?_
      rcases List.mem_append.1 (hmembers.mem_iff.1 hother) with hother | hother
      · simpa [Text.ofString_inj] using hother
      · exact absurd rfl (hextra _ hother).1
    have hcolumn : members.lookup "column" = some (.int position.column) := by
      refine Members.lookup_eq_some (hmembers.mem_iff.2 (by simp)) fun other hother => ?_
      rcases List.mem_append.1 (hmembers.mem_iff.1 hother) with hother | hother
      · simpa [Text.ofString_inj] using hother
      · exact absurd rfl (hextra _ hother).2
    simp only [Json.toPosition, Members.whole, hrow, hcolumn]
    rfl

section

variable {members extra : Members} {convention : Field → Convention} {said : Field → Json}
  (hextra : ∀ member ∈ extra, Field.ofName? member.1 = none)
  (hmembers : members.Perm (Field.all.map (fun field =>
    (Text.ofString (field.name (convention field)), said field)) ++ extra))

include hextra hmembers

/-- Under a name of a field stands what is said of the field, and nothing else. -/
theorem said_of_mem {field : Field} {c : Convention} {value : Json}
    (h : (Text.ofString (field.name c), value) ∈ members) : value = said field := by
  rcases List.mem_append.1 (hmembers.mem_iff.1 h) with h | h
  · obtain ⟨other, -, heq⟩ := List.mem_map.1 h
    obtain ⟨hname, rfl⟩ := Prod.mk.inj heq
    have hfield := Field.ofName?_name other (convention other)
    rw [hname, Field.ofName?_name] at hfield
    cases hfield
    rfl
  · cases (Field.ofName?_name field c).symm.trans (hextra _ h)

/-- What is said of a field is found, whichever of its names it has. -/
theorem first?_eq_said (field : Field) :
    members.first? (field.name .written) (field.name .other) = some (said field) := by
  have hmem : (Text.ofString (field.name (convention field)), said field) ∈ members :=
    hmembers.mem_iff.2 (List.mem_append_left _ (List.mem_map_of_mem (Field.mem_all field)))
  have hfound := Members.lookup_eq_some hmem fun _ => said_of_mem hextra hmembers
  unfold Members.first?
  cases hwritten : members.lookup (field.name .written) with
  | some value => rw [said_of_mem hextra hmembers (Members.mem_of_lookup hwritten), Option.some_or]
  | none =>
    cases hconvention : convention field with
    | written =>
      rw [hconvention, hwritten] at hfound
      cases hfound
    | other => rwa [hconvention] at hfound

/-- A field with one name is found under it. -/
theorem lookup_eq_said (field : Field) (h : field.name .other = field.name .written) :
    members.lookup (field.name .written) = some (said field) := by
  have hfirst := first?_eq_said hextra hmembers field
  rwa [h, Members.first?, Option.or_self] at hfirst

end

/-- What an object says of a node that it spells. -/
theorem ofMembers_of_perm {info : NodeInfo} {members extra : Members}
    {convention : Field → Convention} {startPosition stopPosition : Json} {items : List Json}
    (hkind : info.kind.isTruthy = true) (hstart : SpellsPosition info.startPosition startPosition)
    (hstop : SpellsPosition info.stopPosition stopPosition)
    (hextra : ∀ member ∈ extra, Field.ofName? member.1 = none)
    (hmembers : members.Perm (Field.all.map (fun field =>
      (Text.ofString (field.name (convention field)),
        info.said startPosition stopPosition items field)) ++ extra)) :
    NodeInfo.ofMembers members = .ok info := by
  have hfirst := first?_eq_said hextra hmembers
  -- The two offsets have one name each, every other field has two.
  have hstartOffset : members.whole "start" = .ok info.start := by
    have hlookup : members.lookup "start" = _ := lookup_eq_said hextra hmembers .start rfl
    rw [Members.whole, hlookup]
    rfl
  have hstopOffset : members.whole "end" = .ok info.stop := by
    have hlookup : members.lookup "end" = _ := lookup_eq_said hextra hmembers .stop rfl
    rw [Members.whole, hlookup]
    rfl
  have hstartPosition : members.position "startPosition" "start_position" =
      .ok info.startPosition := by
    have hfound : members.first? "startPosition" "start_position" = _ := hfirst .startPosition
    rw [Members.position, hfound]
    exact toPosition_of_spells hstart
  have hstopPosition : members.position "endPosition" "end_position" = .ok info.stopPosition := by
    have hfound : members.first? "endPosition" "end_position" = _ := hfirst .stopPosition
    rw [Members.position, hfound]
    exact toPosition_of_spells hstop
  have hnamed : members.first? "isNamed" "is_named" = _ := hfirst .isNamed
  rw [NodeInfo.ofMembers_eq_ok (hfirst .kind) hkind hstartOffset hstopOffset hstartPosition
    hstopPosition, hnamed]
  rfl

/-- A row of spellings is read if each spelling is. -/
theorem mapM_of_forall₂ {children : List SyntaxTree} {items : List Json}
    (h : List.Forall₂ Spells children items)
    (hread : ∀ child ∈ children, ∀ json, Spells child json → ofJson json = .ok child) :
    items.mapM ofJson = .ok children := by
  induction h with
  | nil => rfl
  | cons hchild _ ih =>
    obtain ⟨hfirst, hothers⟩ := List.forall_mem_cons.1 hread
    rw [List.mapM_cons, hfirst _ hchild, ok_bind, ih hothers]
    rfl

/-- A tree that says its kinds is read from every spelling of it. -/
theorem ofJson_of_spells {t : SyntaxTree} (hkinds : ∀ s ∈ t.subtrees, s.label.kind.isTruthy = true)
    {json : Json} (h : Spells t json) : ofJson json = .ok t := by
  induction t using Tree.induction generalizing json with
  | node info children ih =>
    cases h with
    | @node _ _ members _ _ items _ _ hstart hstop hchildren hextra hmembers =>
      have hitems : members.lookup "children" = some (.array items) :=
        lookup_eq_said hextra hmembers .children rfl
      -- The children are spelled each in its own way, and read by the hypothesis of the induction.
      have hread : items.mapM ofJson = .ok children := by
        refine mapM_of_forall₂ hchildren fun child hchild json hjson => ih child hchild ?_ hjson
        exact fun s hs => hkinds s (Tree.mem_subtrees_of_mem_children hchild hs)
      have hinfo := ofMembers_of_perm (hkinds _ (Tree.mem_subtrees_self _)) hstart hstop hextra
        hmembers
      rw [ofJson_object hinfo (by simp [hitems]), Members.childItems_eq hitems, hread]
      rfl

/-- Reading undoes writing, in whatever spelling, for every tree that says its
kinds; and what was read from some value is read again from what is written of
it. -/
theorem ofJson_spelled (t : SyntaxTree) :
    ((∀ s ∈ t.subtrees, s.label.kind.isTruthy = true) →
      Spells t t.toJson ∧ ofJson t.toJson = .ok t ∧
        ∀ json, Spells t json → ofJson json = .ok t) ∧
    ∀ json, ofJson json = .ok t → ofJson t.toJson = .ok t := by
  have hspelled := spells_toJson t
  refine ⟨fun hkinds => ⟨hspelled, ofJson_of_spells hkinds hspelled, fun _ =>
    ofJson_of_spells hkinds⟩, fun json hjson => ?_⟩
  exact ofJson_of_spells (truthy_of_ofJson hjson) hspelled

end SyntaxTree

namespace Sample

/-- The name in a block. -/
def innerName : SyntaxTree :=
  .node ⟨.string "identifier", 3, 4, ⟨0, 3⟩, ⟨0, 4⟩, true⟩ []

/-- A block that is not named, with a name in it. -/
def outerBlock : SyntaxTree :=
  .node ⟨.string "block", 3, 7, ⟨0, 3⟩, ⟨0, 7⟩, false⟩ [innerName]

/-- The end of the block, with the column first and a remark. -/
def blockEnd : Members :=
  [("column", .int 7), ("row", .int 0), ("remark", .null)]

/-- Some names by the one convention, the others by the other one. -/
def mixed : Field → Convention
  | .kind | .startPosition | .isNamed => .other
  | _ => .written

/-- The block by both conventions at once, around a name that is as it was
written. -/
def mixedBlock : Json :=
  .object [("text", .string "x = 1"), ("type", .string "block"), ("start", .int 3),
    ("end", .int 7), ("start_position", .array [.int 0, .int 3]),
    ("endPosition", .object blockEnd), ("is_named", .bool false),
    ("children", .array [innerName.toJson])]

end Sample

/-- A spelling by both conventions is read, and what was read is written so that
it is read again. -/
theorem SyntaxTree.ofJson_spelled_mixed :
    Spells Sample.outerBlock Sample.mixedBlock ∧
    ofJson Sample.mixedBlock = .ok Sample.outerBlock ∧
    ofJson Sample.outerBlock.toJson = .ok Sample.outerBlock := by
  have hkinds : ∀ s ∈ Sample.outerBlock.subtrees, s.label.kind.isTruthy = true := by
    simp [Sample.outerBlock, Sample.innerName, Tree.subtrees, Tree.allSubtrees, Json.isTruthy]
    decide
  have hstop : SpellsPosition ⟨0, 7⟩ (.object Sample.blockEnd) :=
    .members [("remark", .null)] (by simp [Text.ofString_inj]) (.swap _ _ _)
  have hspells : Spells Sample.outerBlock Sample.mixedBlock :=
    .node Sample.mixed [("text", .string "x = 1")] .pair hstop
      (.cons (spells_toJson _) .nil) (by decide) (List.perm_append_singleton _ _).symm
  obtain ⟨-, -, hread⟩ := (ofJson_spelled Sample.outerBlock).1 hkinds
  have hmixed := hread Sample.mixedBlock hspells
  exact ⟨hspells, hmixed, (ofJson_spelled Sample.outerBlock).2 Sample.mixedBlock hmixed⟩

end Flowchart
