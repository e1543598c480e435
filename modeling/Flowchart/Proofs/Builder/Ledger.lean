import Flowchart.Proofs.Builder.Tokens
import Flowchart.Proofs.Draft.Ledger

/-!
# `Flowchart.Proofs.Builder.Ledger`: no node is built twice

While a graph is built, no node of the tree is asked for twice, however arms
and wrappers are nested. So no node has more than one block, but for a
function, which can have one at either end, and the root, for which an entry
may be made besides. Building takes no more steps than the tree has nodes.

* `Ledger.Frugal`: no node is asked for twice, or given more than its blocks;
* `ledgerOf`, `origin_ledgerOf`: what is noted while a tree is drafted, and the
  node that each block is made for;
* `build_once`: it is frugal, and the graph consists of the blocks in it.
-/

set_option autoImplicit false

namespace Flowchart

namespace Draft

open Flowchart.Tree hiding node
open TaggedTree

variable {ι : Type}

/-- Tags among others that do not repeat do not repeat. -/
theorem nodup_of_subperm {tags tags' : List ι} (h : tags.Subperm tags') (hnodup : tags'.Nodup) :
    tags.Nodup := by
  obtain ⟨others, hperm, hsublist⟩ := h
  exact hperm.nodup_iff.1 (hnodup.sublist hsublist)

variable [DecidableEq ι]

/-- No node of a tree is asked for twice, or given more than its blocks. -/
structure Ledger.Frugal (table : KindTable) (root : TaggedTree ι) (ledger : Ledger ι) : Prop where
  asked : ledger.asked.Nodup
  asked_mem : ∀ tag ∈ ledger.asked, tag ∈ root.tags
  made_mem : ∀ entry ∈ ledger.made, entry.1 ∈ root.tags
  shows : ∀ s ∈ root.subtrees, ∀ block ∈ ledger.madeFor s.tag,
    block.node = s.plain.label.toNodeInfo
  made : ∀ s ∈ root.subtrees, (ledger.madeFor s.tag).length ≤ 1 ∨
    table.category? s.plain.label.kind = some .function ∧
      ((ledger.madeFor s.tag).map Block.kind).Perm [.entry, .exit]

/-- Where each node has one block of some sort at most, a node has one. -/
theorem Ledger.length_filter_madeFor (ledger : Ledger ι) (p : Block → Bool)
    (h : ((ledger.made.filter fun entry => p entry.2).map Prod.fst).Nodup) (tag : ι) :
    ((ledger.madeFor tag).filter p).length ≤ 1 := by
  have hcount := List.nodup_iff_count_le_one.1 h tag
  rw [List.count, List.countP_map, List.countP_eq_length_filter, List.filter_filter] at hcount
  rw [Ledger.madeFor, List.filter_map, List.length_map, List.filter_filter]
  simpa only [Function.comp_def, Bool.and_comm, Bool.beq_eq_decide_eq, beq_eq_decide] using hcount

/-- With one block at most that is no exit, and one at most that is, there are
one block at most, or one of either. -/
theorem ends_of_length_filter {blocks : List Block}
    (hopened : (blocks.filter fun block => block.kind ≠ .exit).length ≤ 1)
    (hclosed : (blocks.filter fun block => block.kind = .exit).length ≤ 1) :
    blocks.length ≤ 1 ∨
      ∃ first last, blocks.Perm [first, last] ∧ first.kind ≠ .exit ∧ last.kind = .exit := by
  -- The blocks are those that are no exit and those that are one, and either are one at most.
  have hperm := List.filter_append_perm (fun block : Block => decide (block.kind ≠ .exit)) blocks
  have hnot : (fun block : Block => !decide (block.kind ≠ .exit)) =
      fun block => decide (block.kind = .exit) := by
    funext block
    simp
  rw [hnot] at hperm
  cases hfirst : blocks.filter fun block => block.kind ≠ .exit with
  | nil =>
    rw [hfirst, List.nil_append] at hperm
    exact .inl (hperm.length_eq ▸ hclosed)
  | cons first others =>
    rw [hfirst] at hopened hperm
    obtain rfl := List.eq_nil_of_length_eq_zero (Nat.le_zero.1 (Nat.le_of_succ_le_succ hopened))
    cases hlast : blocks.filter fun block => block.kind = .exit with
    | nil =>
      rw [hlast] at hperm
      exact .inl hperm.length_eq.ge
    | cons last others =>
      rw [hlast] at hclosed hperm
      obtain rfl := List.eq_nil_of_length_eq_zero (Nat.le_zero.1 (Nat.le_of_succ_le_succ hclosed))
      have hfirst' : first ∈ blocks.filter fun block => block.kind ≠ .exit := by
        rw [hfirst]
        exact List.mem_singleton_self first
      have hlast' : last ∈ blocks.filter fun block => block.kind = .exit := by
        rw [hlast]
        exact List.mem_singleton_self last
      exact .inr ⟨first, last, hperm.symm, of_decide_eq_true (List.mem_filter.1 hfirst').2,
        of_decide_eq_true (List.mem_filter.1 hlast').2⟩

/-- The notes of a tree whose nodes are told apart are frugal. -/
theorem Accounts.frugal {table : KindTable} {root : TaggedTree ι} {ledger : Ledger ι}
    (h : Accounts table root.subtrees ledger.asked ledger.made) (hnodup : root.tags.Nodup) :
    ledger.Frugal table root := by
  have hasked : ledger.asked.Nodup := nodup_of_subperm h.once hnodup
  -- A block of a node was made for that node, since no other has its tag.
  have hmadeFor : ∀ s ∈ root.subtrees, ∀ block ∈ ledger.madeFor s.tag,
      MadeFor table s.plain.label block := by
    intro s hs block hblock
    obtain ⟨entry, hentry, rfl⟩ := List.mem_map.1 hblock
    obtain ⟨hmade, htag⟩ := List.mem_filter.1 hentry
    obtain ⟨t, ht, hsame, hmadeFor⟩ := h.origin entry hmade
    have hst : t = s :=
      List.inj_on_of_nodup_map hnodup ht hs (hsame.trans (of_decide_eq_true htag))
    exact hst ▸ hmadeFor
  refine ⟨hasked, fun tag htag => h.once.subset htag, fun entry hentry => ?_,
    fun s hs block hblock => (hmadeFor s hs block hblock).shows, fun s hs => ?_⟩
  · obtain ⟨t, ht, htag, _⟩ := h.origin entry hentry
    exact htag ▸ List.mem_map_of_mem ht
  · have hopened := ledger.length_filter_madeFor (fun block => block.kind ≠ .exit)
      (nodup_of_subperm h.opened hasked) s.tag
    have hclosed := ledger.length_filter_madeFor (fun block => block.kind = .exit)
      (nodup_of_subperm h.closed hasked) s.tag
    refine (ends_of_length_filter hopened hclosed).imp_right ?_
    rintro ⟨first, last, hperm, hfirst, hlast⟩
    have hfirstFor := hmadeFor s hs first (hperm.mem_iff.2 (by simp))
    have hfunction := (hmadeFor s hs last (hperm.mem_iff.2 (by simp))).closes hlast
    refine ⟨hfunction, (hperm.map Block.kind).trans (List.Perm.of_eq ?_)⟩
    rw [List.map_cons, List.map_cons, List.map_nil, hfirstFor.opens hfunction hfirst, hlast]

/-- The request for the root of a tree whose nodes are told apart by their
places. -/
def rootAsk (table : KindTable) (tree : SyntaxTree) : Ask Place :=
  ⟨(rootRequest table (table.mark tree)).mode, (table.mark tree).placed, []⟩

/-- The request for the root of a tagged tree is that for the root of the tree.
-/
theorem request_rootAsk (table : KindTable) (tree : SyntaxTree) :
    (rootAsk table tree).request = rootRequest table (table.mark tree) := by
  rw [Ask.request, rootAsk, plain_placed]
  rfl

/-- What is noted while a tree is drafted. -/
def ledgerOf (table : KindTable) (tree : SyntaxTree) : Ledger Place :=
  (serveNoting table (rootAsk table tree) ⟨opening (table.mark tree), [], []⟩).2

/-- A tree is drafted as without notes, and what the notes of its root say is
said of the notes of the tree. -/
theorem notes_ledgerOf {table : KindTable} {tree : SyntaxTree}
    {P : List Place → List (Place × Block) → Prop}
    (h : Notes (serveNoting table (rootAsk table tree)) (serve table (rootAsk table tree).request)
      fun _ => P) :
    P (ledgerOf table tree).asked (ledgerOf table tree).made ∧
      (ledgerOf table tree).draft = (draft table (table.mark tree)).draft ∧
      (ledgerOf table tree).made.map Prod.snd = (draft table (table.mark tree)).draft.blocks := by
  obtain ⟨_, hdraft, asked, made, hP, hasked, hmade, hblocks⟩ :=
    h ⟨opening (table.mark tree), [], []⟩
  rw [request_rootAsk] at hdraft hblocks
  rw [List.nil_append] at hasked hmade
  rw [(opening_adds (table.mark tree)).blocks] at hblocks
  rw [draft_draft, ledgerOf, hasked, hmade]
  exact ⟨hP, hdraft, hblocks.symm⟩

/-- The blocks of a draft are those in the notes, each with the node that it was
made for. -/
theorem origin_ledgerOf (table : KindTable) (tree : SyntaxTree) :
    (∀ entry ∈ (ledgerOf table tree).made, (rootAsk table tree).Makes table entry.1 entry.2) ∧
      (ledgerOf table tree).made.map Prod.snd = (draft table (table.mark tree)).draft.blocks :=
  have h := notes_ledgerOf (notes_origin (rootAsk table tree))
  ⟨h.1, h.2.2⟩

/-- What is noted of a tree is frugal, and the tree is drafted as without
notes. -/
theorem frugal_ledgerOf {table : KindTable} (harms : table.Apart .arms .armContainers)
    (hbodies : table.Apart .bodies .alternatives) (tree : SyntaxTree) :
    (ledgerOf table tree).Frugal table (table.mark tree).placed ∧
      (ledgerOf table tree).draft = (draft table (table.mark tree)).draft ∧
      (ledgerOf table tree).made.map Prod.snd = (draft table (table.mark tree)).draft.blocks := by
  obtain ⟨haccounts, hdraft, hmade⟩ :=
    notes_ledgerOf (notes_serveNoting harms hbodies (rootAsk table tree))
  exact ⟨haccounts.frugal (nodup_tags_placed _), hdraft, hmade⟩

end Draft

namespace Builder

open Flowchart.Tree hiding node

/-- While a graph is built, no node of the tree is asked for twice, and none
has more than one block, but for a function, which can have one at either end,
and the root, for which an entry may be made besides. The graph consists of
these blocks. -/
theorem build_once (builder : Builder) (tree : SyntaxTree)
    (harms : builder.table.Apart .arms .armContainers)
    (hbodies : builder.table.Apart .bodies .alternatives) :
    let marked := builder.table.mark tree
    let result := Draft.draft builder.table marked
    let ledger := Draft.ledgerOf builder.table tree
    ledger.Frugal builder.table marked.placed ∧ ledger.draft = result.draft ∧
      (∀ entry ∈ result.entry?, entry.kind = .entry ∧ entry.node = tree.label) ∧
      ∀ graph notices, (builder.build tree).2 = .ok (graph, notices) →
        List.Forall₂ Draft.Block.Writes
          (result.entry?.toList ++ ledger.made.map Prod.snd) graph.blocks := by
  obtain ⟨hfrugal, hdraft, hmade⟩ := Draft.frugal_ledgerOf harms hbodies tree
  refine ⟨hfrugal, hdraft, fun entry hentry => ?_, fun graph notices hbuild => ?_⟩
  -- An entry of its own is made for the root.
  · obtain ⟨⟨root, target⟩, hpromoted, rfl⟩ := Option.map_eq_some_iff.1 hentry
    obtain ⟨_, rfl, _⟩ := (Draft.promoted_eq_some_iff builder.table _).1 hpromoted
    exact ⟨rfl, builder.table.mark_label tree⟩
  · rw [hmade]
    exact blocks_of_build hbuild

namespace Sample

/-- A function around a choice with two arms in a wrapper. -/
def wrapped : SyntaxTree :=
  named "function_definition"
    [named "block"
      [named "switch_statement"
        [named "switch_body"
          [named "switch_case" [named "expression_statement" []],
            named "switch_case" [named "expression_statement" []]]]]]

end Sample

/-- The default table keeps roles apart, and a tree with arms in wrappers is
drafted frugally. -/
theorem build_once_wrapped :
    KindTable.default.Apart .arms .armContainers ∧
      KindTable.default.Apart .bodies .alternatives ∧
      (Draft.ledgerOf .default Sample.wrapped).Frugal .default
        (KindTable.default.mark Sample.wrapped).placed :=
  ⟨KindTable.apart_arms, KindTable.apart_bodies,
    (Sample.known.build_once Sample.wrapped KindTable.apart_arms KindTable.apart_bodies).1⟩

end Builder

end Flowchart
