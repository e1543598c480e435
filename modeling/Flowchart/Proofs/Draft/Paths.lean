import Flowchart.Proofs.Draft.Ledger
import Flowchart.Text.DecimalDigit

/-!
# `Flowchart.Proofs.Draft.Paths`: where a path leads

The path of a block is written as the numbers of children on the way from the
root, each behind a dash, and it can be read back. What is read is a place in the
tree, but it need not be the place of the node that the block was made for. The
links of a row add their number to the path of the row. The parts of a branch, of
a loop and of a function are drafted with the path of the construct as it is.

So the numbers of the parts are missing in a path. It leads to the node of its
block if and only if the node is not inside a branch, a loop or a function. In any
other case it is too short, and leads to another node or to none.

* `readPlace?`, `readPlace?_text`: reading a path;
* `kept`: what a path keeps of the place of a node;
* `kept_eq_self_iff`: when it keeps all;
* `Ask.Reaches.located`: the path of a request, and the place of its node.
-/

set_option autoImplicit false

namespace Flowchart.Draft

open Flowchart.Tree hiding node
open TaggedTree Text

/-! ### Reading a path -/

/-- The number that a row of digits stands for. -/
def readIndex? (text : Text) : Option Nat := do
  let digits ← text.mapM digitValue?
  if digits.isEmpty then none else some (digits.foldl (fun n digit => 10 * n + digit) 0)

/-- The place that a path stands for: the word for the root, and numbers of
children behind dashes. -/
def readPlace? (text : Text) : Option Place :=
  match text.splitOn (CodePoint.ofChar '-') with
  | root :: indices => if root = "root" then indices.mapM readIndex? else none
  | [] => none

/-- A digit is read as what it stands for. -/
theorem digitValue?_ofChar {c : Char} (h : c.isDigit = true) :
    digitValue? (CodePoint.ofChar c) = some (c.toNat - '0'.toNat) := by
  have hbounds : 0x30 ≤ c.toNat ∧ c.toNat < 0x30 + 10 := by
    simp [Char.isDigit] at h
    change 48 ≤ c.toNat ∧ c.toNat ≤ 57 at h
    omega
  -- The first run of digits is the one that numbers are written with.
  have hfind : zeroDigits.find? (fun z => z ≤ (CodePoint.ofChar c).val &&
      (CodePoint.ofChar c).val < z + 10) = some 0x30 := by
    rw [zeroDigits, List.find?_cons_of_pos]
    exact Bool.and_eq_true_iff.2 ⟨decide_eq_true hbounds.1, decide_eq_true hbounds.2⟩
  rw [digitValue?, hfind]
  rfl

/-- Where each item has a result, so has the list. -/
theorem mapM_eq_some_map {α β : Type} {f : α → Option β} {g : α → β} {xs : List α}
    (h : ∀ x ∈ xs, f x = some (g x)) : xs.mapM f = some (xs.map g) := by
  induction xs with
  | nil => rfl
  | cons x xs ih =>
    have hxs := ih fun y hy => h y (List.mem_cons_of_mem x hy)
    rw [List.mapM_cons, h x List.mem_cons_self, hxs]
    rfl

/-- A number is read as it is written. -/
theorem readIndex?_toString (n : Nat) : readIndex? (toString n) = some n := by
  have hdigits : ∀ c ∈ Nat.toDigits 10 n, c.isDigit = true := fun c hc =>
    Nat.isDigit_of_mem_toDigits (by decide) (by decide) hc
  have hread : (Text.ofString (toString n)).mapM digitValue? =
      some ((Nat.toDigits 10 n).map fun c => c.toNat - '0'.toNat) := by
    rw [Text.ofString, Nat.toString_eq_repr, Nat.toList_repr, List.mapM_map]
    exact mapM_eq_some_map fun c hc => digitValue?_ofChar (hdigits c hc)
  rw [readIndex?, hread]
  simp only [Option.bind_eq_bind, Option.bind_some, List.isEmpty_map, List.foldl_map]
  rw [if_neg (by simp)]
  exact congrArg some (Nat.ofDigitChars_toDigits (by decide) (by decide))

/-- There is no dash in a number. -/
theorem dash_notMem_toString (n : Nat) : CodePoint.ofChar '-' ∉ (toString n : Text) := by
  rw [Text.ofString, Nat.toString_eq_repr, Nat.toList_repr]
  intro h
  obtain ⟨c, hc, heq⟩ := List.mem_map.1 h
  obtain rfl := CodePoint.ofChar_inj.1 heq
  exact absurd (Nat.isDigit_of_mem_toDigits (by decide) (by decide) hc) (by decide)

/-- A path of children puts dashes between the word for the root and the numbers. -/
theorem text_children (place : Place) :
    Path.text (place.map .child) =
      [CodePoint.ofChar '-'].intercalate ("root" :: place.map fun index => toString index) := by
  have hbehind : ∀ first : Text, first ++ (place.map Step.child).flatMap Step.text =
      [CodePoint.ofChar '-'].intercalate (first :: place.map fun index => toString index) := by
    induction place with
    | nil => simp
    | cons index place ih =>
      intro first
      rw [List.map_cons, List.map_cons, List.intercalate_cons_cons, ← ih, List.flatMap_cons,
        List.append_assoc, Step.text, List.append_assoc]
      rfl
  exact hbehind "root"

/-- A path of children is read as it is written. -/
theorem readPlace?_text (place : Place) :
    readPlace? (Path.text (place.map .child)) = some place := by
  have hdashes : ∀ part ∈ ("root" :: place.map fun index => toString index : List Text),
      CodePoint.ofChar '-' ∉ part := by
    rw [List.forall_mem_cons, List.forall_mem_map]
    exact ⟨by decide, fun index _ => dash_notMem_toString index⟩
  have hindices : (place.map fun index => (toString index : Text)).mapM readIndex? =
      some place := by
    rw [List.mapM_map]
    exact (mapM_eq_some_map fun index _ => readIndex?_toString index).trans
      (congrArg some (List.map_id place))
  rw [readPlace?, text_children, List.splitOn_intercalate _ hdashes (List.cons_ne_nil _ _)]
  exact hindices

/-! ### What a path keeps of a place -/

/-- A node is drafted as a construct, so that what it leads to are its parts. -/
def leadsIntoParts (table : KindTable) (mode : Mode) (t : SyntaxTree) : Bool :=
  mode = .visit && table.isStructural t.label.kind

/-- What the path of a block keeps of a place in a tree that is drafted in some
mode: the numbers of parts are left out. -/
def kept (table : KindTable) : Mode → SyntaxTree → Place → Place
  | _, _, [] => []
  | mode, t, index :: place =>
    let below (mode : Mode) := t.children[index]?.elim [] fun child => kept table mode child place
    if leadsIntoParts table mode t then below .chain else index :: below .visit

variable {table : KindTable}

/-- What is kept of a place is some of its steps. -/
theorem kept_sublist (mode : Mode) (t : SyntaxTree) (place : Place) :
    (kept table mode t place).Sublist place := by
  induction place generalizing mode t with
  | nil => exact List.Sublist.refl _
  | cons index place ih =>
    have hbelow (mode : Mode) :
        (t.children[index]?.elim [] fun child => kept table mode child place).Sublist place := by
      cases t.children[index]? with
      | none => exact List.nil_sublist _
      | some child => exact ih mode child
    rw [kept]
    split
    · exact (hbelow .chain).cons index
    · exact (hbelow .visit).cons_cons index

/-- All of a place is kept if and only if the node there is inside no construct. -/
theorem kept_eq_self_iff {t s : SyntaxTree} {place : Place} (h : t.at? place = some s) :
    kept table .visit t place = place ↔
      ∀ outer u, outer <+: place → outer ≠ place → t.at? outer = some u →
        table.category? u.label.kind = none := by
  induction place generalizing t with
  | nil =>
    refine iff_of_true rfl fun outer u hprefix hne _ => ?_
    exact absurd (List.prefix_nil.1 hprefix) hne
  | cons index place ih =>
    obtain ⟨child, hchild, hbelow⟩ := Option.bind_eq_some_iff.1 h
    have hat : ∀ rest, t.at? (index :: rest) = child.at? rest := at?_cons hchild
    cases hcategory : table.category? t.label.kind with
    | some category =>
      -- The number of a part is lost, and no other can be put in its place.
      refine iff_of_false (fun hkept => ?_) fun hnone => ?_
      · have hlost : kept table .visit t (index :: place) = kept table .chain child place := by
          simp [kept, leadsIntoParts, KindTable.isStructural, hcategory, hchild]
        have hlength : (kept table .chain child place).length ≤ place.length :=
          (kept_sublist .chain child place).length_le
        rw [← hlost, hkept, List.length_cons] at hlength
        omega
      · cases hcategory.symm.trans (hnone [] t List.nil_prefix (List.cons_ne_nil _ _).symm rfl)
    | none =>
      have hkept : kept table .visit t (index :: place) =
          index :: kept table .visit child place := by
        simp [kept, leadsIntoParts, KindTable.isStructural, hcategory, hchild]
      rw [hkept, List.cons_eq_cons, and_iff_right rfl, ih hbelow]
      constructor
      · intro hinside outer u hprefix hne hu
        rcases List.prefix_cons_iff.1 hprefix with rfl | ⟨rest, rfl, hrest⟩
        · cases hu
          exact hcategory
        · rw [hat] at hu
          exact hinside rest u hrest (fun heq => hne (heq ▸ rfl)) hu
      · intro hinside outer u hprefix hne hu
        exact hinside (index :: outer) u (List.prefix_cons_inj index |>.2 hprefix)
          (fun heq => hne (List.cons.inj heq).2) ((hat outer).trans hu)

/-! ### The path of a request -/

/-- The links of a row, with the numbers of the children. -/
theorem links_eq_map_filter (t : MarkedTree) (path : Path) :
    Request.links t path = (t.children.zipIdx.filter fun p => p.1.label.isNamed).map fun p =>
      (.link, ⟨.visit, p.1, path ++ [.child p.2]⟩) := by
  rw [Request.links]
  generalize t.children.zipIdx = rows
  induction rows with
  | nil => rfl
  | cons row rows ih =>
    rw [List.filterMap_cons, List.filter_cons, ih]
    cases hnamed : row.1.label.isNamed <;> simp [hnamed]

/-- The links of a row at a place. -/
theorem Ask.parts_links {q : Ask Place} {place : Place} {t : MarkedTree}
    (htree : q.tree = placedAt place t)
    (hlinks : q.request.parts table = Request.links t q.path)
    (hnamed : partsIn table q.mode q.tree = namedIn q.tree) :
    q.parts table = (t.children.zipIdx.filter fun p => p.1.label.isNamed).map fun p =>
      (.link, ⟨.visit, placedAt (place ++ [p.2]) p.1, q.path ++ [.child p.2]⟩) := by
  have hfilter : namedIn q.tree = (t.children.zipIdx.filter fun p => p.1.label.isNamed).map fun p =>
      placedAt (place ++ [p.2]) p.1 := by
    rw [namedIn, htree, children_placedAt, List.filter_map]
    simp only [Function.comp_def, plain_placedAt]
  rw [Ask.parts, hlinks, hnamed, hfilter, links_eq_map_filter, List.zipWith_map, List.zipWith_self]
  rfl

/-- The parts of a construct that is no choice are chains with its path. -/
theorem Request.chain_of_mem_parts {r p : Request} {part : Part} {category : Category}
    (hmode : r.mode = .visit) (hcategory : table.category? r.tree.label.kind = some category)
    (hchoice : category ≠ .choice) (h : (part, p) ∈ r.parts table) :
    p.mode = .chain ∧ p.path = r.path := by
  -- What is inside a child is a chain, and has the path of the node itself.
  have hinside : ∀ {part' : Part} {child? : Option MarkedTree},
      (part, p) ∈ Request.inside? part' r.path child? → p.mode = .chain ∧ p.path = r.path := by
    intro part' child? hp
    cases child? with
    | none => cases hp
    | some child =>
      cases List.mem_singleton.1 hp
      exact ⟨rfl, rfl⟩
  simp only [Request.parts, hmode, hcategory] at h
  cases category with
  | branch => exact (List.mem_append.1 h).elim hinside hinside
  | loop | function => exact hinside h
  | choice => exact absurd rfl hchoice
  | terminator => cases h

/-- They are among its children. -/
theorem mem_children_of_partsIn {t u : TaggedTree Place} {category : Category}
    (hcategory : table.category? t.plain.label.kind = some category) (hchoice : category ≠ .choice)
    (h : u ∈ partsIn table .visit t) : u ∈ t.children := by
  have hchild : ∀ {role : Role}, u ∈ (childIn? table role t).toList → u ∈ t.children :=
    fun hu => (sublist_childIn? _ t).subset hu
  simp only [partsIn, hcategory] at h
  cases category with
  | branch => exact (List.mem_append.1 h).elim hchild hchild
  | loop | function => exact hchild h
  | choice => exact absurd rfl hchoice
  | terminator => cases h

/-- A numbered child of a marked tree is a marked child with that number. -/
theorem exists_child_of_zipIdx {s : SyntaxTree} {row : MarkedTree × Nat}
    (h : row ∈ (table.mark s).children.zipIdx) :
    ∃ child, s.children[row.2]? = some child ∧ row.1 = table.mark child := by
  have hrow := List.mem_zipIdx_iff_getElem?.1 h
  rw [table.children_mark, List.getElem?_map, Option.map_eq_some_iff] at hrow
  obtain ⟨child, hchild, hmark⟩ := hrow
  exact ⟨child, hchild, hmark.symm⟩

/-- A request for a part is about a child of the node. The path gets the number
of the child, unless the child is a part of a construct. -/
structure Ask.Descends (table : KindTable) (q : Ask Place) (s : SyntaxTree) (p : Ask Place)
    (place : Place) (index : Nat) (child : SyntaxTree) : Prop where
  found : s.children[index]? = some child
  tree : p.tree = placedAt (place ++ [index]) (table.mark child)
  mode : p.mode = if leadsIntoParts table q.mode s then .chain else .visit
  path : p.path = q.path ++ if leadsIntoParts table q.mode s then [] else [.child index]

section

variable {q p : Ask Place} {s : SyntaxTree} {place : Place} {part : Part}

/-- A link goes down to a named child, by the number of the child. -/
theorem Ask.descends_of_links (htree : q.tree = placedAt place (table.mark s))
    (hleads : leadsIntoParts table q.mode s = false)
    (hlinks : q.request.parts table = Request.links (table.mark s) q.path)
    (hnamed : partsIn table q.mode q.tree = namedIn q.tree) (h : (part, p) ∈ q.parts table) :
    ∃ index child, q.Descends table s p place index child := by
  rw [Ask.parts_links htree hlinks hnamed] at h
  obtain ⟨row, hrow, hp⟩ := List.mem_map.1 h
  obtain ⟨child, hchild, hmark⟩ := exists_child_of_zipIdx (List.mem_filter.1 hrow).1
  cases hp
  exact ⟨row.2, child, hchild, hmark ▸ rfl, by rw [hleads]; rfl, by rw [hleads]; rfl⟩

/-- A part inside a child goes down to the child, without a step in the path. -/
theorem Ask.descends_of_inside (htree : q.tree = placedAt place (table.mark s))
    (hleads : leadsIntoParts table q.mode s = true) (hchild : p.tree ∈ q.tree.children)
    (hmode : p.mode = .chain) (hpath : p.path = q.path) :
    ∃ index child, q.Descends table s p place index child := by
  rw [htree, children_placedAt] at hchild
  obtain ⟨row, hrow, hp⟩ := List.mem_map.1 hchild
  obtain ⟨child, hchild, hmark⟩ := exists_child_of_zipIdx hrow
  refine ⟨row.2, child, hchild, hmark ▸ hp.symm, ?_, ?_⟩
  · rw [hleads]
    exact hmode
  · rw [hleads]
    exact hpath.trans (List.append_nil _).symm

/-- Without choices, every part is such a child. -/
theorem Ask.exists_descends (htree : q.tree = placedAt place (table.mark s))
    (hchoice : table.category? s.label.kind ≠ some .choice) (h : (part, p) ∈ q.parts table) :
    ∃ index child, q.Descends table s p place index child := by
  -- The tagged tree and the marked one have the same parts, so both are looked at in step.
  have hplain : q.tree.plain = table.mark s := by rw [htree, plain_placedAt]
  have hkind : (table.mark s).label.kind = s.label.kind :=
    congrArg NodeInfo.kind (table.mark_label s)
  have hrequest : (part, p.request) ∈ q.request.parts table := by
    rw [← q.request_parts]
    exact List.mem_map.2 ⟨_, h, rfl⟩
  have hpart : p.tree ∈ partsIn table q.mode q.tree := by
    rw [← q.tree_parts]
    exact List.mem_map.2 ⟨_, h, rfl⟩
  have hparts : q.request.parts table = Request.parts table ⟨q.mode, table.mark s, q.path⟩ := by
    rw [← hplain]
    rfl
  rw [hparts] at hrequest
  cases hmode : q.mode with
  | chain =>
    refine descends_of_links htree (by simp [leadsIntoParts, hmode]) ?_ ?_ h
    · rw [hparts]
      simp only [Request.parts, hmode]
    · simp only [partsIn, hmode]
  | visit =>
    have hleads : leadsIntoParts table q.mode s = (table.category? s.label.kind).isSome := by
      simp [leadsIntoParts, hmode, KindTable.isStructural]
    cases hcategory : table.category? s.label.kind with
    | none =>
      rw [hcategory] at hleads
      cases hcontainer : table.isContainer (table.mark s).label with
      | true =>
        refine descends_of_links htree hleads ?_ ?_ h
        · rw [hparts]
          simp only [Request.parts, hmode, hkind, hcategory, hcontainer, if_true]
        · simp only [partsIn, hmode, hplain, hkind, hcategory, hcontainer, if_true]
      | false =>
        simp [Request.parts, hmode, hkind, hcategory, hcontainer] at hrequest
    | some category =>
      rw [hcategory] at hleads
      -- Arms are the only parts that can lie deeper than a child, and they are ruled out here.
      have hother : category ≠ .choice := fun heq => hchoice (heq ▸ hcategory)
      obtain ⟨hchain, hpath⟩ :=
        Request.chain_of_mem_parts hmode (hkind ▸ hcategory) hother hrequest
      rw [hmode] at hpart
      have hchild := mem_children_of_partsIn (by rw [hplain, hkind, hcategory]) hother hpart
      exact descends_of_inside htree hleads hchild hchain hpath

end

/-- A request that is served for another one is about a node below the node of
that one, and behind the path of that one it has what is kept of the place. -/
theorem Ask.Reaches.located {q p : Ask Place} (h : q.Reaches table p) {s : SyntaxTree}
    {place : Place} (htree : q.tree = placedAt place (table.mark s))
    (hchoice : ∀ u ∈ s.subtrees, table.category? u.label.kind ≠ some .choice) :
    ∃ below u, s.at? below = some u ∧ p.tree = placedAt (place ++ below) (table.mark u) ∧
      p.path = q.path ++ (kept table q.mode s below).map .child := by
  -- By induction from the front: each step goes down to one child.
  induction h using Relation.ReflTransGen.head_induction_on generalizing s place with
  | refl =>
    refine ⟨[], s, rfl, ?_, ?_⟩
    · rw [htree, List.append_nil]
    · exact (List.append_nil _).symm
  | @head q next hstep _ ih =>
    obtain ⟨part, hpart⟩ := hstep
    obtain ⟨index, child, hdescends⟩ :=
      Ask.exists_descends htree (hchoice s (mem_subtrees_self s)) hpart
    have hbelow : ∀ u ∈ child.subtrees, table.category? u.label.kind ≠ some .choice := by
      intro u hu
      refine hchoice u (mem_subtrees_of_mem_children ?_ hu)
      exact List.mem_of_getElem? hdescends.found
    obtain ⟨below, u, hu, htree', hpath⟩ := ih hdescends.tree hbelow
    refine ⟨index :: below, u, (at?_cons hdescends.found below).trans hu, ?_, ?_⟩
    · rw [htree', List.append_assoc, List.singleton_append]
    -- The path gets the number of the child if the step is a link, and the place always does.
    · rw [hpath, hdescends.path, hdescends.mode, kept, hdescends.found]
      cases leadsIntoParts table q.mode s <;> simp

end Flowchart.Draft
