import Flowchart.Draft.Construct

/-!
# `Flowchart.Draft.Serve`: drafting a whole tree

Two ways to serve a request. `serve` recurses into the parts. `run` keeps
the constructs that wait for a part on a stack of its own, so the depth of
nesting is bounded by memory alone; it ends because serving a part takes
less work than was waiting for it. Drafts are made with `run`.

- `draft`: the draft of a tree and what became of its root.
-/

set_option autoImplicit false

namespace Flowchart.Draft

/-- Serves a request by recursion into its parts. -/
def serve (table : KindTable) (r : Request) : Drafting (Option Fragment) := do
  let construct ← r.start table
  let construct ← (r.parts table).attach.foldlM
    (fun construct ⟨(part, q), _⟩ => do construct.receive part (← serve table q)) construct
  construct.finish
termination_by r.tree.size
decreasing_by exact Request.parts_size_lt ‹_›

/-- How much work a request stands for. -/
def Request.work (table : KindTable) (r : Request) : Nat :=
  2 + (r.parts table).attach.foldr (fun ⟨(_, q), _⟩ count => q.work table + count) 0
termination_by r.tree.size
decreasing_by exact Request.parts_size_lt ‹_›

/-- How much work a row of parts stands for. -/
def work (table : KindTable) : List (Part × Request) → Nat
  | [] => 0
  | p :: parts => p.2.work table + work table parts

/-- The work of parts is that of each, added up from the back. -/
theorem work_eq_foldr (table : KindTable) (parts : List (Part × Request)) :
    work table parts = parts.foldr (fun p count => p.2.work table + count) 0 := by
  induction parts with
  | nil => rfl
  | cons p parts ih => rw [work, ih, List.foldr_cons]

/-- A request is opened and closed, and its parts are served. -/
theorem Request.work_eq (table : KindTable) (r : Request) :
    r.work table = 2 + Draft.work table (r.parts table) := by
  rw [Request.work, work_eq_foldr]
  congr 1
  exact List.foldr_attach (l := r.parts table)
    (f := fun (p : Part × Request) count => p.2.work table + count) (b := 0)

/-- A construct that waits for one of its parts, and the parts behind that. -/
structure Frame where
  construct : Construct
  part : Part
  rest : List (Part × Request)

/-- How much work the frames of a stack stand for. -/
def stackWork (table : KindTable) : List Frame → Nat
  | [] => 0
  | frame :: stack => work table frame.rest + 1 + stackWork table stack

/-- Serves the parts of an open construct, and then all that waits for it. -/
def run (table : KindTable) : Construct → List (Part × Request) → List Frame →
    Drafting (Option Fragment)
  | construct, (part, q) :: rest, stack => do
    -- The construct waits in a frame until its part is served.
    let opened ← q.start table
    run table opened (q.parts table) (⟨construct, part, rest⟩ :: stack)
  | construct, [], frame :: stack => do
    let result ← construct.finish
    let resumed ← frame.construct.receive frame.part result
    run table resumed frame.rest stack
  | construct, [], [] => construct.finish
termination_by _ parts stack => work table parts + stackWork table stack
decreasing_by
  · simp only [stackWork, work, Request.work_eq]
    omega
  · simp only [stackWork, work]
    omega

/-- Serves a request on a stack of its own. -/
def runRequest (table : KindTable) (r : Request) : Drafting (Option Fragment) := do
  let construct ← r.start table
  run table construct (r.parts table) []

/-- The request for a whole tree: a root that is a construct itself, or that
has nothing named in it, is visited, and any other is a chain. -/
def rootRequest (table : KindTable) (tree : MarkedTree) : Request :=
  let single := table.isStructural tree.label.kind || tree.namedChildren.isEmpty
  ⟨if single then .visit else .chain, tree, []⟩

/-- What a draft is when its root is done. -/
structure Result where
  /-- What was drafted for the tree. -/
  draft : Draft
  /-- The node that an entry of its own is made for, and the block that it
  leads to. -/
  promoted : Option (NodeInfo × Nat)

namespace Result

/-- The entry that is put in front of all other blocks. -/
def entry? (result : Result) : Option Block :=
  result.promoted.map fun (root, _) =>
    ⟨result.draft.next, .entry, root, [], .fixed "entry"⟩

/-- The edge out of that entry. -/
def entryEdge? (result : Result) : Option Edge :=
  result.promoted.map fun (_, target) => ⟨result.draft.next, target, .onward⟩

/-- The blocks of the graph, in order. -/
def blocks (result : Result) : List Block :=
  result.entry?.toList ++ result.draft.blocks

/-- The edges of the graph, in order. -/
def edges (result : Result) : List Edge :=
  result.draft.edges ++ result.entryEdge?.toList

/-- The number of the next block. -/
def next (result : Result) : Nat :=
  result.draft.next + result.promoted.toList.length

end Result

/-- The entry that a chain needs, if something was drafted for it and nothing
in it has an entry. -/
def promotion (root : NodeInfo) (fragment : Option Fragment) (draft : Draft) :
    Option (NodeInfo × Nat) :=
  if draft.blocks.any (·.kind == .entry) then none
  else fragment.map fun fragment => (root, fragment.entry)

/-- Drafts a whole tree. A chain gets an entry of its own unless something
in it has one. -/
def draft (table : KindTable) (tree : MarkedTree) : Result :=
  let r := rootRequest table tree
  let drafting : Drafting (Option Fragment) := do
    refuse (MarkedTree.firstRefused? [tree])
    runRequest table r
  let (fragment, draft) := drafting empty
  match r.mode with
  | .visit => ⟨draft, none⟩
  | .chain => ⟨draft, promotion tree.label.toNodeInfo fragment draft⟩

end Flowchart.Draft
