import Flowchart.Proofs.Except
import Flowchart.Proofs.Json.Members
import Flowchart.Proofs.Syntax.Subtrees
import Flowchart.Syntax.Json

/-!
# `Flowchart.Proofs.Syntax.Reading`: which JSON values are syntax trees

Reading a tree takes an object for each node. A node is checked before the
nodes below it and these in their order, so what is reported is the first
fault in pre-order, and behind it nothing is looked at.

Most faults are about single values: offsets that are no numbers, children
that are no list. In a value whose nodes are all objects with the right
values (`TreeLike`) one fault is left. A node has to say a kind, and a kind
that says nothing hides one under the other name: where there is a member
`kind`, however empty, `type` is not asked for.

* `nodes`: the nodes of a value in pre-order, as objects;
* `ofJson_object`: reading an object is reading the node, then its children;
* `kind_of_ofMembers`, `truthy_of_ofJson`: a tree that was read says a kind
  at every node;
* `reading_of_treeLike`: a value of the right form is read in full or not at
  all, and the report of the latter is about its first node without a kind.
-/

set_option autoImplicit false

namespace Flowchart

open Json (Members)

namespace Json

/-! ### The nodes of a value -/

/-- The values that an object lists for children. -/
def Members.childItems (members : Members) : List Json :=
  match members.lookup "children" with
  | some (.array items) => items
  | _ => []

/-- An array of children holds them. -/
theorem Members.childItems_eq {members : Members} {items : List Json}
    (h : members.lookup "children" = some (.array items)) : members.childItems = items := by
  rw [childItems, h]

/-- Anything that is no array of children holds none. -/
theorem Members.childItems_eq_nil {members : Members}
    (h : ∀ items, members.lookup "children" ≠ some (.array items)) : members.childItems = [] := by
  unfold childItems
  split
  next items hlookup => exact absurd hlookup (h items)
  next => rfl

/-- What is among the children is smaller than the object. -/
theorem Members.sizeOf_lt_of_mem_childItems {members : Members} {item : Json}
    (h : item ∈ members.childItems) : sizeOf item < sizeOf members := by
  unfold Members.childItems at h
  split at h
  next items hlookup =>
    have hitems := sizeOf_lt_of_lookup hlookup
    have hitem := List.sizeOf_lt_of_mem h
    simp at hitems
    omega
  next => nomatch h

/-- The nodes of a value that stands for a tree, in pre-order. -/
def nodes : Json → List Members
  | .object members =>
    members :: (Members.childItems members).attach.flatMap fun ⟨item, _⟩ => nodes item
  | _ => []
termination_by value => sizeOf value
decreasing_by
  have := Members.sizeOf_lt_of_mem_childItems ‹_›
  simp
  omega

/-- The nodes of an object are itself and those of its children. -/
theorem nodes_object (members : Members) :
    nodes (.object members) = members :: members.childItems.flatMap nodes := by
  rw [nodes]
  simp [List.flatMap]

/-- Whether an object says no kind: what it has under the name `kind`, or
under `type` if it has no member `kind`, is missing or says nothing. -/
def Members.isKindless (members : Members) : Bool :=
  match members.lookup "kind" with
  | some kind => !kind.isTruthy
  | none => !(members.lookup "type").any isTruthy

/-- An object has no kind if neither name for it has a value that counts as
true. -/
theorem Members.isKindless_eq (members : Members) :
    members.isKindless = !(members.first? "kind" "type").any isTruthy := by
  unfold Members.isKindless Members.first?
  cases members.lookup "kind" <;> rfl

/-! ### Values of the right form -/

/-- A whole number. -/
def IsWhole (value : Json) : Prop :=
  ∃ n, value = .int n

/-- A whole number is one. -/
@[simp]
theorem isWhole_int (n : Int) : (int n).IsWhole := ⟨n, rfl⟩

/-- What is there under a name, if anything, is a whole number. -/
def Members.WholeAt (members : Members) (name : Text) : Prop :=
  ∀ value, members.lookup name = some value → value.IsWhole

/-- A position with whole numbers. What is neither an object nor a pair has
no numbers at all. -/
def IsPlace : Json → Prop
  | .object members => Members.WholeAt members "row" ∧ Members.WholeAt members "column"
  | .array [row, column] => row.IsWhole ∧ column.IsWhole
  | _ => True

/-- What is there under the first of two names that an object has, if
anything, is a position with whole numbers. -/
def Members.PlaceAt (members : Members) (name other : Text) : Prop :=
  ∀ value, members.first? name other = some value → value.IsPlace

/-- A value made of objects, each with a list of such values for children,
or null, or nothing, and with whole numbers for offsets and positions. -/
inductive TreeLike : Json → Prop where
  | node {members : Members} (start : members.WholeAt "start") (stop : members.WholeAt "end")
      (startPosition : members.PlaceAt "startPosition" "start_position")
      (stopPosition : members.PlaceAt "endPosition" "end_position")
      (children : ∀ value, members.lookup "children" = some value →
        value = .null ∨ ∃ items, value = .array items)
      (items : ∀ item ∈ members.childItems, TreeLike item) : TreeLike (.object members)

/-- A whole number under a name can be read there. -/
theorem Members.WholeAt.succeeds {members : Members} {name : Text} (h : members.WholeAt name) :
    Succeeds (members.whole name) := by
  unfold Members.whole
  cases hlookup : members.lookup name with
  | none => exact ⟨0, rfl⟩
  | some value =>
    obtain ⟨n, rfl⟩ := h value hlookup
    exact ⟨n, rfl⟩

/-- A place can be read as a position. -/
theorem IsPlace.succeeds {value : Json} (h : value.IsPlace) : Succeeds value.toPosition := by
  unfold toPosition
  split
  next members =>
    exact h.1.succeeds.bind fun _ => h.2.succeeds.bind fun _ => ⟨_, rfl⟩
  next row column =>
    obtain ⟨⟨m, rfl⟩, ⟨n, rfl⟩⟩ := h
    exact ⟨⟨m, n⟩, rfl⟩
  next => exact ⟨⟨0, 0⟩, rfl⟩

/-- A place under one of two names can be read there. -/
theorem Members.PlaceAt.succeeds {members : Members} {name other : Text}
    (h : members.PlaceAt name other) : Succeeds (members.position name other) := by
  unfold Members.position
  cases hfirst : members.first? name other with
  | none => exact ⟨⟨0, 0⟩, rfl⟩
  | some value => exact (h value hfirst).succeeds

end Json

/-! ### Reading a node -/

namespace NodeInfo

variable {members : Members} {info : NodeInfo}

/-- What an object with a kind says, from what is found under each name. -/
theorem ofMembers_eq_ok {kind : Json} {start stop : Int} {startPosition stopPosition : Position}
    (hkind : members.first? "kind" "type" = some kind) (htruthy : kind.isTruthy = true)
    (hstart : members.whole "start" = .ok start) (hstop : members.whole "end" = .ok stop)
    (hstartPosition : members.position "startPosition" "start_position" = .ok startPosition)
    (hstopPosition : members.position "endPosition" "end_position" = .ok stopPosition) :
    ofMembers members = .ok ⟨kind, start, stop, startPosition, stopPosition,
      (members.first? "isNamed" "is_named").elim true Json.isTruthy⟩ := by
  simp only [ofMembers, hkind, htruthy, if_true, hstart, hstop, hstartPosition, hstopPosition]
  rfl

/-- An object without a kind is no node, whatever else is wrong with it. -/
theorem ofMembers_of_isKindless (h : members.isKindless = true) :
    ofMembers members = .error (.missingKind ((members.map Prod.fst).mergeSort Text.le)) := by
  rw [Members.isKindless_eq] at h
  cases hfirst : members.first? "kind" "type" with
  | none =>
    simp only [ofMembers, hfirst]
    rfl
  | some kind =>
    have htruthy : kind.isTruthy = false := by simpa [hfirst] using h
    simp only [ofMembers, hfirst, htruthy]
    rfl

/-- An object with a kind has it under one of the two names. -/
theorem exists_kind (h : members.isKindless = false) :
    ∃ kind, members.first? "kind" "type" = some kind ∧ kind.isTruthy = true := by
  rw [Members.isKindless_eq] at h
  simpa [Option.any_eq_true] using h

/-- A node that was read says the kind that its object says. -/
theorem kind_of_ofMembers (h : ofMembers members = .ok info) :
    members.first? "kind" "type" = some info.kind ∧ info.kind.isTruthy = true := by
  cases hkindless : members.isKindless with
  | true =>
    rw [ofMembers_of_isKindless hkindless] at h
    cases h
  | false =>
    obtain ⟨kind, hkind, htruthy⟩ := exists_kind hkindless
    simp only [ofMembers, hkind, htruthy, if_true, pure_bind] at h
    -- The other fields are read in their order, and none of them touches the kind.
    obtain ⟨start, -, h⟩ := bind_eq_ok.1 h
    obtain ⟨stop, -, h⟩ := bind_eq_ok.1 h
    obtain ⟨startPosition, -, h⟩ := bind_eq_ok.1 h
    obtain ⟨stopPosition, -, h⟩ := bind_eq_ok.1 h
    cases h
    exact ⟨hkind, htruthy⟩

/-- Of an object with the right values no more is asked than a kind. -/
theorem ofMembers_succeeds (hkindless : members.isKindless = false)
    (start : members.WholeAt "start") (stop : members.WholeAt "end")
    (startPosition : members.PlaceAt "startPosition" "start_position")
    (stopPosition : members.PlaceAt "endPosition" "end_position") :
    Succeeds (ofMembers members) := by
  obtain ⟨kind, hkind, htruthy⟩ := exists_kind hkindless
  obtain ⟨_, hstart⟩ := start.succeeds
  obtain ⟨_, hstop⟩ := stop.succeeds
  obtain ⟨_, hstartPosition⟩ := startPosition.succeeds
  obtain ⟨_, hstopPosition⟩ := stopPosition.succeeds
  exact ⟨_, ofMembers_eq_ok hkind htruthy hstart hstop hstartPosition hstopPosition⟩

end NodeInfo

/-! ### Reading a tree -/

namespace SyntaxTree

open Json

variable {members : Members}

/-- An object that is no node is no tree. -/
theorem ofJson_eq_error {fault : TreeFault} (h : NodeInfo.ofMembers members = .error fault) :
    ofJson (.object members) = .error fault := by
  rw [ofJson, h]
  rfl

/-- To read children that are known to be smaller is to read them. -/
theorem mapM_attach_ofJson (items : List Json) :
    (items.attach.mapM fun ⟨item, _⟩ => ofJson item) = items.mapM ofJson := by
  rw [List.mapM_subtype fun _ _ => rfl, List.unattach_attach]

/-- An object that is a node is read together with its children, if they are a
list or null. -/
theorem ofJson_object {info : NodeInfo} (hinfo : NodeInfo.ofMembers members = .ok info)
    (hchildren : ∀ value, members.lookup "children" = some value →
      value = .null ∨ ∃ items, value = .array items) :
    ofJson (.object members) = (members.childItems.mapM ofJson).map (.node info) := by
  rw [ofJson, hinfo, ok_bind]
  split
  next hlookup =>
    rw [Members.childItems_eq_nil (by simp [hlookup])]
    rfl
  next items hlookup =>
    rw [Members.childItems_eq hlookup, mapM_attach_ofJson]
    cases items.mapM ofJson <;> rfl
  next value hitems hlookup =>
    obtain rfl | ⟨items, rfl⟩ := hchildren value hlookup
    · rw [Members.childItems_eq_nil (by simp [hlookup])]
      rfl
    · exact (hitems items rfl).elim

/-- What was read is an object that is a node, with what its children were
read as. -/
theorem exists_of_ofJson {json : Json} {info : NodeInfo} {children : List SyntaxTree}
    (h : ofJson json = .ok (.node info children)) :
    ∃ members : Members, json = .object members ∧ NodeInfo.ofMembers members = .ok info ∧
      members.childItems.mapM ofJson = .ok children := by
  cases json with
  | object members =>
    refine ⟨members, rfl, ?_⟩
    rw [ofJson] at h
    obtain ⟨info', hinfo, h⟩ := bind_eq_ok.1 h
    dsimp only at h
    split at h
    -- There are no children if none are named, or if what is named is false as a condition.
    next hlookup =>
      cases h
      rw [Members.childItems_eq_nil (by simp [hlookup])]
      exact ⟨hinfo, rfl⟩
    next items hlookup =>
      rw [mapM_attach_ofJson] at h
      obtain ⟨trees, htrees, h⟩ := bind_eq_ok.1 h
      cases h
      rw [Members.childItems_eq hlookup]
      exact ⟨hinfo, htrees⟩
    next value hitems hlookup =>
      split at h
      · split at h <;> cases h
      · cases h
        rw [Members.childItems_eq_nil fun items h => hitems items (by simpa [hlookup] using h)]
        exact ⟨hinfo, rfl⟩
  | _ =>
    rw [ofJson] at h
    · cases h
    · intro members hmembers
      cases hmembers

/-- A tree that was read says a kind at every node. -/
theorem truthy_of_ofJson {json : Json} {t : SyntaxTree} (h : ofJson json = .ok t) :
    ∀ s ∈ t.subtrees, s.label.kind.isTruthy = true := by
  induction t using Tree.induction generalizing json with
  | node info children ih =>
    obtain ⟨members, rfl, hinfo, hchildren⟩ := exists_of_ofJson h
    intro s hs
    rcases List.mem_cons.1 hs with rfl | hs
    · exact (NodeInfo.kind_of_ofMembers hinfo).2
    · obtain ⟨child, hchild, hs⟩ := Tree.mem_allSubtrees.1 hs
      obtain ⟨item, -, hitem⟩ := exists_of_mem_mapM hchildren child hchild
      exact ih child hchild hitem s hs

/-- The kinds of a tree that was read are those that the nodes of its value
say, node by node in pre-order. -/
theorem kinds_of_ofJson {json : Json} {t : SyntaxTree} (h : ofJson json = .ok t) :
    t.subtrees.map (fun s => some s.label.kind) =
      json.nodes.map fun node => node.first? "kind" "type" := by
  induction t using Tree.induction generalizing json with
  | node info children ih =>
    obtain ⟨members, rfl, hinfo, hchildren⟩ := exists_of_ofJson h
    have hrow : children.map (fun child => child.subtrees.map fun s => some s.label.kind) =
        members.childItems.map fun item => item.nodes.map fun node => node.first? "kind" "type" :=
      map_of_mapM _ _ (fun item child hchild hitem => ih child hchild hitem) hchildren
    rw [Tree.subtrees, Tree.allSubtrees_eq_flatMap, nodes_object, List.map_cons, List.map_cons,
      List.map_flatMap, List.map_flatMap, List.flatMap, List.flatMap, hrow]
    rw [(NodeInfo.kind_of_ofMembers hinfo).1, Tree.label_node]

/-! ### The first node without a kind -/

/-- A value of the right form whose nodes all say a kind is read. -/
theorem ofJson_succeeds {json : Json} (h : TreeLike json)
    (hkinds : ∀ node ∈ json.nodes, node.isKindless = false) : Succeeds (ofJson json) := by
  induction h with
  | @node members start stop startPosition stopPosition children items ih =>
    rw [nodes_object] at hkinds
    obtain ⟨hroot, hbelow⟩ := List.forall_mem_cons.1 hkinds
    obtain ⟨info, hinfo⟩ :=
      NodeInfo.ofMembers_succeeds hroot start stop startPosition stopPosition
    obtain ⟨trees, htrees⟩ : Succeeds (members.childItems.mapM ofJson) :=
      Succeeds.mapM fun item hitem => ih item hitem fun node hnode =>
        hbelow node (List.mem_flatMap_of_mem hitem hnode)
    rw [ofJson_object hinfo children, htrees]
    exact ⟨_, rfl⟩

/-- The first node without a kind, in pre-order, is what is reported of a value
of the right form. -/
theorem ofJson_eq_missingKind {json : Json} (h : TreeLike json) {node : Members}
    (hfirst : json.nodes.find? Members.isKindless = some node) :
    ofJson json = .error (.missingKind ((node.map Prod.fst).mergeSort Text.le)) := by
  induction h with
  | @node members start stop startPosition stopPosition children items ih =>
    rw [nodes_object, List.find?_cons] at hfirst
    split at hfirst
    next hroot =>
      cases hfirst
      exact ofJson_eq_error (NodeInfo.ofMembers_of_isKindless hroot)
    next hroot =>
      obtain ⟨info, hinfo⟩ :=
        NodeInfo.ofMembers_succeeds (by simpa using hroot) start stop startPosition stopPosition
      rw [List.find?_flatMap] at hfirst
      obtain ⟨before, item, after, hitems, hitem, hbefore⟩ := List.findSome?_eq_some_iff.1 hfirst
      -- the children in front of the one with the node are read in full
      have hread : ∀ other ∈ before, Succeeds (ofJson other) := by
        intro other hother
        have hmem : other ∈ members.childItems := by simp [hitems, hother]
        exact ofJson_succeeds (items other hmem) (by simpa using hbefore other hother)
      have hfault := ih item (by simp [hitems]) hitem
      rw [ofJson_object hinfo children, hitems, mapM_eq_error hread hfault]
      rfl

/-- Names in the order in which a report lists them: none comes behind a greater
one. -/
theorem sorted_names (names : List Text) :
    (names.mergeSort Text.le).Pairwise fun name later => ¬later < name := by
  -- The order that is sorted by is that of lists, said by comparing both ways.
  have hle : ∀ a b : Text, a.le b = true ↔ ¬b < a := by
    intro a b
    unfold Text.le Text.order
    split
    next hlt => simpa [Ordering.isLE] using List.lt_asymm hlt
    next hlt =>
      split
      next hgt => simpa [Ordering.isLE] using hgt
      next hgt => simpa [Ordering.isLE] using hgt
  have hsorted : (names.mergeSort Text.le).Pairwise fun a b => a.le b = true := by
    refine List.pairwise_mergeSort ?_ ?_ names
    · intro a b c hab hbc
      rw [hle] at *
      exact List.le_trans hab hbc
    · intro a b
      rw [Bool.or_eq_true, hle, hle]
      exact List.le_total a b
  exact hsorted.imp fun {a b} h => (hle a b).1 h

/-- A value of the right form is read unless a node of it says no kind. The
report is then about the first such node in pre-order and lists its names,
sorted; else the tree has a node for each node of the value, of the kind that
is said there. -/
theorem reading_of_treeLike {json : Json} (h : TreeLike json) :
    (Succeeds (ofJson json) ↔ ∀ node ∈ json.nodes, node.isKindless = false) ∧
    ((∃ names, ofJson json = .error (.missingKind names)) ↔
      ∃ node ∈ json.nodes, node.isKindless = true) ∧
    (∀ node, json.nodes.find? Members.isKindless = some node →
      ∃ names, names.Perm (node.map Prod.fst) ∧ names.Pairwise (fun name later => ¬later < name) ∧
        ofJson json = .error (.missingKind names) ∧
        (TreeFault.missingKind names).message =
          "Syntax node without a kind: [" ++ Text.joined ", " (names.map Text.quoted) ++ "]") ∧
    ∀ t, ofJson json = .ok t → t.subtrees.map (fun s => some s.label.kind) =
      json.nodes.map fun node => node.first? "kind" "type" := by
  -- The first node without a kind decides, if there is one.
  cases hfirst : json.nodes.find? Members.isKindless with
  | none =>
    have hkinds : ∀ node ∈ json.nodes, node.isKindless = false := by simpa using hfirst
    obtain ⟨t, ht⟩ := ofJson_succeeds h hkinds
    refine ⟨iff_of_true ⟨t, ht⟩ hkinds, iff_of_false ?_ ?_, nofun, fun _ => kinds_of_ofJson⟩
    · rintro ⟨names, hnames⟩
      cases ht.symm.trans hnames
    · rintro ⟨node, hnode, hkindless⟩
      cases (hkinds node hnode).symm.trans hkindless
  | some node =>
    have hfault := ofJson_eq_missingKind h hfirst
    have hnode : node ∈ json.nodes := List.mem_of_find?_eq_some hfirst
    have hkindless : node.isKindless = true := List.find?_some hfirst
    refine ⟨iff_of_false ?_ ?_, iff_of_true ⟨_, hfault⟩ ⟨node, hnode, hkindless⟩, ?_,
      fun _ => kinds_of_ofJson⟩
    · rintro ⟨t, ht⟩
      cases ht.symm.trans hfault
    · intro hkinds
      cases (hkinds node hnode).symm.trans hkindless
    · rintro _ ⟨⟩
      exact ⟨_, List.mergeSort_perm _ _, sorted_names _, hfault, rfl⟩

end SyntaxTree

/-- A value with two nodes that say no kind, behind one whose kind is its type. -/
def Sample.kindless : Json :=
  .object [("kind", .string "program"), ("children", .array [
    .object [("type", .string "a"), ("children", .null)],
    .object [("start", .int 3), ("type", .string "b"), ("kind", .string "")],
    .object [("end", .int 4)]])]

/-- An empty kind hides a type, and the node behind it is not reported. -/
theorem SyntaxTree.reading_of_treeLike_kindless :
    Sample.kindless.TreeLike ∧ ∃ names, ofJson Sample.kindless = .error (.missingKind names) ∧
      names.Perm ["start", "type", "kind"] := by
  have htree : Sample.kindless.TreeLike := by
    refine .node ?_ ?_ ?_ ?_ ?_ ?_
    all_goals simp [Members.WholeAt, Members.PlaceAt, Members.first?, Members.childItems]
    -- Three nodes below the root; their fields are checked as its own are.
    refine ⟨.node ?_ ?_ ?_ ?_ ?_ ?_, .node ?_ ?_ ?_ ?_ ?_ ?_, .node ?_ ?_ ?_ ?_ ?_ ?_⟩
    all_goals simp [Members.WholeAt, Members.PlaceAt, Members.first?, Members.childItems]
  have hfirst : Sample.kindless.nodes.find? Members.isKindless =
      some [(Text.ofString "start", .int 3), (Text.ofString "type", .string "b"),
        (Text.ofString "kind", .string "")] := by
    simp [Sample.kindless, Json.nodes_object, Members.childItems, Members.isKindless, Json.isTruthy]
    decide
  obtain ⟨-, -, hreport, -⟩ := reading_of_treeLike htree
  obtain ⟨names, hperm, -, hfault, -⟩ := hreport _ hfirst
  exact ⟨htree, names, hfault, hperm⟩

end Flowchart
