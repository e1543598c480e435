import Flowchart.Proofs.Except
import Flowchart.Proofs.Outline.Constructs
import Flowchart.Proofs.Syntax.Tagged

/-!
# `Flowchart.Proofs.Kinds.Flags`: one pass that flags a tree

Whether a node holds structure can be asked of each node by a scan of what is
below it, or of all nodes by one pass. The pass keeps a table of flags by the
identity of a node, and a stack of its own. A node that comes up for the first
time is put back below its children. When it comes up again its children have
flags, and its own flag is read off theirs. A node that has a flag by then is
passed over: in memory one node may stand in several places.

A look-up in the table could fail. What keeps it from failing is that a node
gets its flag behind all that is below it, so the table is closed downwards
whenever the pass puts something into it.

* `ObjectTree`: a tree in memory;
* `flagAll`, `flagsOf`: the pass;
* `structural_mark_eq`, `scan_eq`: marks and scans ask the same;
* `Sound`: what is in the table is right, and the table is closed downwards;
* `flagAll_fresh`: what the pass does with one node;
* `flags_of_tree`: the pass ends with the right flag for every node, and each
  flag that is read while a tree is drafted is there.
-/

set_option autoImplicit false

namespace Flowchart

/-- A tree in memory. The tags are the identities of its nodes, and one node
may stand in several places. -/
structure ObjectTree (ι : Type) where
  tree : Tree (ι × NodeInfo)
  identical : ∀ s ∈ tree.subtrees, ∀ u ∈ tree.subtrees, s.tag = u.tag → s = u

/-- The flags of nodes, by their identities. -/
abbrev Flags (ι : Type) := List (ι × Bool)

/-- Why flags cannot be had. -/
inductive FlagFault (ι : Type) where
  /-- A flag is read before it is there. -/
  | unflagged (tag : ι)
  /-- The category of a kind cannot be looked up. -/
  | refused (fault : Fault)

/-- How often the nodes of a stack will come up. A node that was opened comes
up once more. -/
def comings {α : Type} : List (Tree α × Bool) → Nat
  | [] => 0
  | (t, opened) :: stack => (if opened then 1 else 2 * t.size) + comings stack

/-- New trees of a stack come up twice for each of their nodes. -/
theorem comings_fresh {α : Type} (ts : List (Tree α)) (stack : List (Tree α × Bool)) :
    comings (ts.map (·, false) ++ stack) = 2 * Tree.sizes ts + comings stack := by
  induction ts with
  | nil => simp [Tree.sizes]
  | cons t ts ih =>
    rw [List.map_cons, List.cons_append, comings, ih, Tree.sizes, if_neg (by decide)]
    omega

/-- A row of trees has as many nodes from the back as from the front. -/
theorem sizes_reverse {α : Type} (ts : List (Tree α)) : Tree.sizes ts.reverse = Tree.sizes ts := by
  induction ts with
  | nil => rfl
  | cons t ts ih =>
    rw [List.reverse_cons, Tree.sizes_append, ih, Tree.sizes, Tree.sizes, Tree.sizes]
    omega

open Flowchart.Tree

namespace KindTable

variable {ι : Type} [DecidableEq ι]

/-! ### The pass -/

/-- Reads the flag of a node. -/
def flagOf (flags : Flags ι) (t : Tree (ι × NodeInfo)) : Except (FlagFault ι) Bool :=
  match flags.lookup t.tag with
  | some flag => .ok flag
  | none => .error (.unflagged t.tag)

/-- Whether a node shows structure, by its flag or else by its kind. -/
def showsFlagged (table : KindTable) (flags : Flags ι) (t : Tree (ι × NodeInfo)) :
    Except (FlagFault ι) Bool := do
  if ← flagOf flags t then return true
  t.label.2.kind.lookUp.mapError .refused
  return table.isStructural t.label.2.kind

/-- Flags what is on a stack. A node that was not opened is put back below its
children, and one that was opened gets its flag. -/
def flagAll (table : KindTable) : List (Tree (ι × NodeInfo) × Bool) → Flags ι →
    Except (FlagFault ι) (Flags ι)
  | [], flags => .ok flags
  | (t, opened) :: stack, flags =>
    if (flags.lookup t.tag).isSome then flagAll table stack flags
    -- The children are flagged when a node comes up for the second time.
    else if opened then do
      let shows ← t.children.anyM (table.showsFlagged flags)
      flagAll table stack ((t.tag, shows) :: flags)
    else flagAll table (t.children.reverse.map (·, false) ++ (t, true) :: stack) flags
termination_by stack => comings stack
decreasing_by
  · have := t.size_pos
    simp only [comings]
    split <;> omega
  · simp only [comings, if_pos ‹_›]
    omega
  · rw [comings_fresh, sizes_reverse, comings, comings, Tree.size_eq, if_pos rfl, if_neg ‹_›]
    omega

/-- The flags of a tree. -/
def flagsOf (table : KindTable) (t : ObjectTree ι) : Except (FlagFault ι) (Flags ι) :=
  table.flagAll [(t.tree, false)] []

/-- Whether the children of a node are to be chained, by its flag. -/
def isContainerFlagged (table : KindTable) (flags : Flags ι) (t : Tree (ι × NodeInfo)) :
    Except (FlagFault ι) Bool :=
  if table.has .containers t.label.2.kind then .ok true
  else if !t.label.2.isNamed then .ok false
  else flagOf flags t

/-! ### Marks and scans -/

variable {table : KindTable}

/-- A node has structure below it if a child is structural or has structure
below it. -/
theorem hasStructuralDescendant_eq (t : SyntaxTree) :
    table.hasStructuralDescendant t =
      t.children.any fun s =>
        table.hasStructuralDescendant s || table.isStructural s.label.kind := by
  rw [hasStructuralDescendant, allSubtrees_eq_flatMap, List.any_flatMap]
  congr 1
  funext s
  rw [hasStructuralDescendant, Bool.or_comm]
  cases s
  rfl

/-- The mark of a node says whether a descendant has a category. -/
theorem structural_mark_eq (t : SyntaxTree) :
    (table.mark t).label.structural = table.hasStructuralDescendant t := by
  induction t using Tree.induction with
  | node info children ih =>
    rw [structural_mark, children_mark, List.any_map, hasStructuralDescendant_eq]
    rw [Bool.eq_iff_iff, List.any_eq_true, List.any_eq_true]
    refine exists_congr fun s => and_congr_right fun hs => ?_
    rw [Function.comp_apply, showsStructure, ih s hs, MarkedTree.kind, kind_mark]

/-- A node has structure below it if one of its proper descendants has a
category. -/
theorem hasStructuralDescendant_iff {t : SyntaxTree} :
    table.hasStructuralDescendant t = true ↔
      ∃ s ∈ allSubtrees t.children, table.category? s.label.kind ≠ none := by
  simp [hasStructuralDescendant, isStructural, Option.isSome_iff_ne_none]

/-- A scan finds out whether a descendant has a category. -/
theorem scan_eq {t : SyntaxTree} (h : ∀ s ∈ t.subtrees, s.label.kind.isKey = true) :
    table.scan t = .ok (table.hasStructuralDescendant t) := by
  have hanswers : ∀ s ∈ allBackward t.children,
      (do s.label.kind.lookUp; return table.isStructural s.label.kind : Except Fault Bool) =
        .ok (table.isStructural s.label.kind) := by
    intro s hs
    have hkey := h s (by cases t; exact List.mem_cons_of_mem _ (mem_allBackward.1 hs))
    rw [Json.lookUp, if_pos hkey]
    rfl
  rw [scan, anyM_eq_ok hanswers, hasStructuralDescendant]
  congr 1
  rw [Bool.eq_iff_iff, List.any_eq_true, List.any_eq_true]
  simp only [mem_allBackward]

/-! ### Tables of flags -/

/-- A node has a flag. -/
def IsFlagged (flags : Flags ι) (t : Tree (ι × NodeInfo)) : Prop :=
  (flags.lookup t.tag).isSome

/-- One flag more flags the nodes of its tag. -/
theorem isFlagged_cons {flags : Flags ι} {tag : ι} {flag : Bool} {t : Tree (ι × NodeInfo)} :
    IsFlagged ((tag, flag) :: flags) t ↔ t.tag = tag ∨ IsFlagged flags t := by
  rw [IsFlagged, IsFlagged, List.lookup_cons]
  by_cases h : t.tag = tag
  · simp [h]
  · simp [h, beq_false_of_ne h]

variable {t : ObjectTree ι}

/-- What is in a table of flags is right, and the table is closed downwards. -/
structure Sound (table : KindTable) (t : ObjectTree ι) (flags : Flags ι) : Prop where
  right : ∀ s ∈ t.tree.subtrees, ∀ flag, flags.lookup s.tag = some flag →
    flag = table.hasStructuralDescendant s.plain
  closed : ∀ s ∈ t.tree.subtrees, IsFlagged flags s → ∀ u ∈ s.children, IsFlagged flags u

namespace Sound

variable {flags : Flags ι}

/-- Where there are no flags, none is wrong. -/
theorem nil : Sound table t [] :=
  ⟨nofun, nofun⟩

/-- With a node, all below it has a flag. -/
theorem subtree (h : Sound table t flags) {s u : Tree (ι × NodeInfo)} (hs : s ∈ t.tree.subtrees)
    (hflag : IsFlagged flags s) (hu : u ∈ s.subtrees) : IsFlagged flags u := by
  induction s with
  | node label children ih =>
    rcases List.mem_cons.1 hu with rfl | hu
    · exact hflag
    · obtain ⟨child, hchild, hu⟩ := mem_allSubtrees.1 hu
      have hmem : child ∈ t.tree.subtrees :=
        mem_subtrees_trans hs (mem_subtrees_of_mem_children hchild (mem_subtrees_self child))
      exact ih child hchild hmem (h.closed _ hs hflag child hchild) hu

/-- A node that is flagged has the flag that a scan would give it. -/
theorem flagOf_eq (h : Sound table t flags) {s : Tree (ι × NodeInfo)} (hs : s ∈ t.tree.subtrees)
    (hflag : IsFlagged flags s) :
    flagOf flags s = .ok (table.hasStructuralDescendant s.plain) := by
  obtain ⟨flag, hlookup⟩ := Option.isSome_iff_exists.1 hflag
  rw [flagOf, hlookup, h.right s hs flag hlookup]

/-- Where the children of a node have flags, its own can be read off theirs. -/
theorem anyM_children (h : Sound table t flags)
    (hkeys : ∀ s ∈ t.tree.subtrees, s.label.2.kind.isKey = true) {s : Tree (ι × NodeInfo)}
    (hs : s ∈ t.tree.subtrees) (hflags : ∀ u ∈ s.children, IsFlagged flags u) :
    s.children.anyM (table.showsFlagged flags) = .ok (table.hasStructuralDescendant s.plain) := by
  have hshows : ∀ u ∈ s.children, table.showsFlagged flags u =
      .ok (table.hasStructuralDescendant u.plain || table.isStructural u.plain.label.kind) := by
    intro u hu
    have hmem := mem_subtrees_trans hs (mem_subtrees_of_mem_children hu (mem_subtrees_self u))
    rw [showsFlagged, h.flagOf_eq hmem (hflags u hu), ok_bind, Json.lookUp, if_pos (hkeys u hmem),
      label_plain]
    cases table.hasStructuralDescendant u.plain <;> rfl
  rw [anyM_eq_ok hshows, hasStructuralDescendant_eq, children_plain, List.any_map]
  rfl

/-- A node may be given its flag once its children have theirs. -/
theorem cons (h : Sound table t flags) {s : Tree (ι × NodeInfo)} (hs : s ∈ t.tree.subtrees)
    (hflags : ∀ u ∈ s.children, IsFlagged flags u) :
    Sound table t ((s.tag, table.hasStructuralDescendant s.plain) :: flags) where
  right u hu flag hlookup := by
    rw [List.lookup_cons] at hlookup
    by_cases htag : u.tag = s.tag
    · -- Nodes of one identity are one node.
      rw [t.identical u hu s hs htag]
      simpa [htag] using hlookup.symm
    · exact h.right u hu flag (by simpa [beq_false_of_ne htag] using hlookup)
  closed u hu hflag v hv := by
    refine isFlagged_cons.2 (.inr ?_)
    rcases isFlagged_cons.1 hflag with htag | hflag
    · obtain rfl := t.identical u hu s hs htag
      exact hflags v hv
    · exact h.closed u hu hflag v hv

end Sound

/-! ### What the pass does -/

section Steps

variable {flags : Flags ι} {s : Tree (ι × NodeInfo)} {stack : List (Tree (ι × NodeInfo) × Bool)}

/-- A node that has a flag is passed over. -/
theorem flagAll_again {opened : Bool} (h : IsFlagged flags s) :
    table.flagAll ((s, opened) :: stack) flags = table.flagAll stack flags := by
  rw [flagAll]
  exact if_pos h

/-- A node that comes up for the first time is put back below its children. -/
theorem flagAll_open (h : ¬IsFlagged flags s) :
    table.flagAll ((s, false) :: stack) flags =
      table.flagAll (s.children.reverse.map (·, false) ++ (s, true) :: stack) flags := by
  rw [flagAll]
  exact if_neg h

/-- A node that was opened is flagged. -/
theorem flagAll_close {shows : Bool} (h : ¬IsFlagged flags s)
    (hshows : s.children.anyM (table.showsFlagged flags) = .ok shows) :
    table.flagAll ((s, true) :: stack) flags = table.flagAll stack ((s.tag, shows) :: flags) := by
  rw [flagAll, hshows]
  exact if_neg h

end Steps

/-- What the pass has done with some nodes: it goes on with the rest of the
stack, and they are the ones that have flags now and had none before. -/
def Flagged (table : KindTable) (t : ObjectTree ι) (stack rest : List (Tree (ι × NodeInfo) × Bool))
    (flags : Flags ι) (nodes : List (Tree (ι × NodeInfo))) : Prop :=
  ∃ flags', table.flagAll stack flags = table.flagAll rest flags' ∧ Sound table t flags' ∧
    ∀ s ∈ t.tree.subtrees, IsFlagged flags' s ↔ IsFlagged flags s ∨ s ∈ nodes

/-- What the pass does with a row of nodes, from what it does with each. -/
theorem flagged_row {ts : List (Tree (ι × NodeInfo))}
    (hts : ∀ s ∈ ts, ∀ stack flags, Sound table t flags →
      Flagged table t ((s, false) :: stack) stack flags s.subtrees)
    (stack : List (Tree (ι × NodeInfo) × Bool)) {flags : Flags ι} (h : Sound table t flags) :
    Flagged table t (ts.map (·, false) ++ stack) stack flags (allSubtrees ts) := by
  induction ts generalizing flags with
  | nil => exact ⟨flags, rfl, h, by simp [allSubtrees]⟩
  | cons s ts ih =>
    obtain ⟨flags₁, heq₁, hsound₁, hflagged₁⟩ :=
      hts s List.mem_cons_self (ts.map (·, false) ++ stack) flags h
    obtain ⟨flags₂, heq₂, hsound₂, hflagged₂⟩ :=
      ih (fun u hu => hts u (List.mem_cons_of_mem s hu)) hsound₁
    refine ⟨flags₂, heq₁.trans heq₂, hsound₂, fun u hu => ?_⟩
    rw [hflagged₂ u hu, hflagged₁ u hu, allSubtrees, List.mem_append, or_assoc]

/-- A node that comes up is flagged with all that is below it, and the pass
goes on with the rest of the stack. -/
theorem flagAll_fresh (hkeys : ∀ s ∈ t.tree.subtrees, s.label.2.kind.isKey = true)
    {s : Tree (ι × NodeInfo)} (hs : s ∈ t.tree.subtrees)
    (stack : List (Tree (ι × NodeInfo) × Bool)) {flags : Flags ι} (h : Sound table t flags) :
    Flagged table t ((s, false) :: stack) stack flags s.subtrees := by
  induction s generalizing stack flags with
  | node label children ih =>
    have hchildren : ∀ u ∈ children, u ∈ t.tree.subtrees := fun u hu =>
      mem_subtrees_trans hs (mem_subtrees_of_mem_children hu (mem_subtrees_self u))
    by_cases hflag : IsFlagged flags (.node label children)
    -- A node that comes up again has a flag, and so has all below it.
    · exact ⟨flags, flagAll_again hflag, h,
        fun u hu => ⟨.inl, fun hu => hu.elim id (h.subtree hs hflag)⟩⟩
    · obtain ⟨flags', heq, hsound, hflagged⟩ := flagged_row
        (fun u hu stack flags h =>
          ih u (List.mem_reverse.1 hu) (hchildren u (List.mem_reverse.1 hu)) stack h)
        ((.node label children, true) :: stack) h
      have hmem : ∀ u, u ∈ allSubtrees children.reverse ↔ u ∈ allSubtrees children := by
        intro u
        simp only [mem_allSubtrees, List.mem_reverse]
      have hflags : ∀ u ∈ children, IsFlagged flags' u := fun u hu =>
        (hflagged u (hchildren u hu)).2
          (.inr ((hmem u).2 (mem_allSubtrees.2 ⟨u, hu, mem_subtrees_self u⟩)))
      -- The node is not below itself, so it has no flag before it comes up again.
      have hlate : ¬IsFlagged flags' (.node label children) := by
        rw [hflagged _ hs, hmem]
        rintro (hearly | hbelow)
        · exact hflag hearly
        · exact not_mem_allSubtrees_children _ hbelow
      refine ⟨_, ?_, hsound.cons hs hflags, fun u hu => ?_⟩
      · exact (flagAll_open hflag).trans
          (heq.trans (flagAll_close hlate (hsound.anyM_children hkeys hs hflags)))
      · rw [isFlagged_cons, hflagged u hu, hmem, subtrees, List.mem_cons]
        have htag : u.tag = tag (.node label children) ↔ u = .node label children :=
          ⟨t.identical u hu _ hs, congrArg tag⟩
        rw [htag]
        tauto

/-- The pass over a tree ends, and has a flag for each node, the right one. -/
theorem flagsOf_eq_ok (table : KindTable)
    (hkeys : ∀ s ∈ t.tree.subtrees, s.label.2.kind.isKey = true) :
    ∃ flags, table.flagsOf t = .ok flags ∧ Sound table t flags ∧
      ∀ s ∈ t.tree.subtrees, IsFlagged flags s := by
  obtain ⟨flags, heq, hsound, hflagged⟩ : Flagged table t [(t.tree, false)] [] [] _ :=
    flagAll_fresh hkeys (mem_subtrees_self t.tree) [] .nil
  refine ⟨flags, ?_, hsound, fun s hs => (hflagged s hs).2 (.inr hs)⟩
  rw [flagsOf, heq, flagAll]

/-- A node is a container by its flag if it is one by a scan. -/
theorem isContainerFlagged_eq {flags : Flags ι} {s : Tree (ι × NodeInfo)}
    (h : flags.lookup s.tag = some (table.hasStructuralDescendant s.plain)) :
    table.isContainerFlagged flags s = .ok (table.isContainerByScan s.plain) := by
  rw [isContainerFlagged, isContainerByScan, flagOf, h, SyntaxTree.kind, SyntaxTree.isNamed,
    label_plain]
  cases table.has .containers s.label.2.kind <;> cases s.label.2.isNamed <;> rfl

/-- With a mark, the question is the same. -/
theorem isContainer_mark (s : SyntaxTree) :
    table.isContainer (table.mark s).label = table.isContainerByScan s := by
  rw [isContainer, isContainerByScan, structural_mark_eq, kind_mark]
  congr 2
  exact table.isNamed_mark s

open Draft in
/-- The pass over a tree ends with a flag for each node. It says whether a
proper descendant has a category, which is what a scan says, so that nodes are
containers by their flags where they are by a scan. Each node that is asked
for while the tree is drafted has a flag, and it is the mark of the node. -/
theorem flags_of_tree (table : KindTable) (t : ObjectTree ι)
    (hkeys : ∀ s ∈ t.tree.subtrees, s.label.2.kind.isKey = true) :
    ∃ flags, table.flagsOf t = .ok flags ∧
      (∀ s ∈ t.tree.subtrees, ∃ flag, flags.lookup s.tag = some flag ∧
        (flag = true ↔ ∃ u ∈ allSubtrees s.plain.children, table.category? u.label.kind ≠ none) ∧
        table.scan s.plain = .ok flag ∧
        table.isContainerFlagged flags s = .ok (table.isContainerByScan s.plain)) ∧
      ∀ r d, Served table (table.mark t.tree.plain) r d → ∃ s ∈ t.tree.subtrees,
        r.tree = table.mark s.plain ∧ flags.lookup s.tag = some r.tree.label.structural ∧
        table.isContainerFlagged flags s = .ok (table.isContainer r.tree.label) := by
  obtain ⟨flags, heq, hsound, hflagged⟩ := table.flagsOf_eq_ok hkeys
  -- Flags are right where they are, and every node has one.
  have hlookup : ∀ s ∈ t.tree.subtrees,
      flags.lookup s.tag = some (table.hasStructuralDescendant s.plain) := by
    intro s hs
    obtain ⟨flag, hflag⟩ := Option.isSome_iff_exists.1 (hflagged s hs)
    rw [hflag, hsound.right s hs flag hflag]
  refine ⟨flags, heq, fun s hs => ⟨_, hlookup s hs, hasStructuralDescendant_iff, scan_eq ?_,
    isContainerFlagged_eq (hlookup s hs)⟩, fun r d hserved => ?_⟩
  · intro u hu
    rw [subtrees_plain] at hu
    obtain ⟨v, hv, rfl⟩ := List.mem_map.1 hu
    rw [label_plain]
    exact hkeys v (mem_subtrees_trans hs hv)
  · have hmem := hserved.mem_subtrees
    rw [subtrees_mark, subtrees_plain, List.map_map] at hmem
    obtain ⟨s, hs, htree⟩ := List.mem_map.1 hmem
    refine ⟨s, hs, htree.symm, ?_, ?_⟩
    · rw [hlookup s hs, ← htree, Function.comp_apply, structural_mark_eq]
    · rw [isContainerFlagged_eq (hlookup s hs), ← htree, Function.comp_apply, isContainer_mark]

end KindTable

/-! ### A sample

A statement with a loop in it that stands in a row twice, and is one node in
memory. -/

namespace Sample

open Draft.Sample

/-- The tree in memory. -/
def sharing : ObjectTree Nat where
  tree :=
    let statement := .node (1, node "call") [.node (2, node "while") []]
    .node (0, node "all") [statement, statement, .node (3, node "call") []]
  identical := by
    simp only [subtrees, allSubtrees, List.cons_append, List.nil_append, List.mem_cons,
      List.not_mem_nil, or_false]
    rintro s (rfl | rfl | rfl | rfl | rfl | rfl) u (rfl | rfl | rfl | rfl | rfl | rfl) h <;>
      first
        | rfl
        | exact absurd h (by decide)

/-- All kinds of the tree are keys. -/
theorem isKey_sharing : ∀ s ∈ sharing.tree.subtrees, s.label.2.kind.isKey = true := by
  simp only [sharing, subtrees, allSubtrees, List.cons_append, List.nil_append,
    List.forall_mem_cons, List.not_mem_nil, false_implies, implies_true, and_true]
  exact ⟨rfl, rfl, rfl, rfl, rfl, rfl⟩

/-- A scan of the statement finds the loop in it. -/
theorem scan_statement :
    kinds.scan (plain (.node (1, node "call") [.node (2, node "while") []])) = .ok true := by
  rfl

/-- The shared node gets one flag, which is the right one. -/
theorem flags_of_sharing :
    ∃ flags, kinds.flagsOf sharing = .ok flags ∧ flags.lookup 1 = some true := by
  obtain ⟨flags, heq, hflags, _⟩ := kinds.flags_of_tree sharing isKey_sharing
  obtain ⟨flag, hlookup, _, hscan, _⟩ :=
    hflags (.node (1, node "call") [.node (2, node "while") []])
      (by simp [sharing, subtrees, allSubtrees])
  cases hscan.symm.trans scan_statement
  exact ⟨flags, heq, hlookup⟩

end Sample

end Flowchart
