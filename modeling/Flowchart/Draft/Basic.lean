import Flowchart.Fault
import Flowchart.Graph.Basic

/-!
# `Flowchart.Draft.Basic`: graphs before their texts are written

A graph is drafted first: its blocks are numbered from zero in the order in
which they are made, and say which nodes of the syntax tree their texts will
come from. The shape of a graph therefore never depends on the source text.
The draft is the log of the blocks made and the edges drawn, in that order.
What could not be done with a kind is in the log too: a graph is only made up
to there.

- `Drafting`: the steps that add to a draft;
- `newBlock`, `addEdge`, `cut`, `fail`: the steps there are.
-/

set_option autoImplicit false

namespace Flowchart.Draft

/-- One step down a syntax tree. -/
inductive Step where
  | child (index : Nat)
  /-- To an arm of a choice, by its place among the arms. -/
  | arm (index : Nat)
deriving DecidableEq, Repr

/-- The steps from the root of a syntax tree to a node. -/
abbrev Path := List Step

/-- How one step is written. -/
def Step.text : Step → Text
  | .child index => "-" ++ toString index
  | .arm index => "-arm" ++ toString index

/-- How a path is written. -/
def Path.text (path : Path) : Text :=
  "root" ++ path.flatMap Step.text

/-- Where the texts of a block come from. -/
inductive Caption where
  /-- The node itself. -/
  | whole
  /-- The condition of a branch. -/
  | branch (condition : Option NodeInfo)
  /-- The condition of a loop, behind a word for the loop. -/
  | loop (word : Text) (condition : Option NodeInfo)
  /-- The node itself, as the line below a fixed label. -/
  | choice
  /-- The name of a function. -/
  | function (name : Option NodeInfo)
  /-- A fixed text. -/
  | fixed (text : Text)

/-- A block of a draft. -/
structure Block where
  number : Nat
  kind : BlockKind
  /-- The node that the block stands for. -/
  node : NodeInfo
  path : Path
  caption : Caption

/-- What an edge of a draft stands for. -/
inductive Flow where
  /-- What follows comes next. -/
  | onward
  /-- The condition of a branch holds. -/
  | whenTrue
  /-- The condition of a branch fails. -/
  | whenFalse
  /-- A loop enters its body. -/
  | body
  /-- A body goes back to its loop. -/
  | next
  /-- An arm of a choice is taken; its text comes from the given nodes. -/
  | arm (index : Nat) (parts : List NodeInfo)

/-- An edge of a draft. -/
structure Edge where
  source : Nat
  target : Nat
  flow : Flow

/-- What can happen to a draft. -/
inductive Event where
  | block (block : Block)
  | edge (edge : Edge)
  /-- The text of a node was cut for a block that was not made. -/
  | cut (node : NodeInfo)
  /-- Something could not be done with a kind. -/
  | failed (fault : Fault)

end Draft

/-- The log of what was drafted, and the number of the next block. -/
structure Draft where
  next : Nat
  log : Array Draft.Event

namespace Draft

/-- A draft of nothing. -/
def empty : Draft :=
  ⟨0, #[]⟩

/-- The block that an event made. -/
def Event.block? : Event → Option Block
  | .block made => some made
  | _ => none

/-- The edge that an event drew. -/
def Event.edge? : Event → Option Edge
  | .edge drawn => some drawn
  | _ => none

/-- The blocks of a draft in the order in which they were made. -/
def blocks (draft : Draft) : List Block :=
  draft.log.toList.filterMap Event.block?

/-- The edges of a draft in the order in which they were drawn. -/
def edges (draft : Draft) : List Edge :=
  draft.log.toList.filterMap Event.edge?

/-- Steps that add to a draft. -/
abbrev Drafting := StateM Draft

/-- Makes a block and gives its number. -/
def newBlock (kind : BlockKind) (node : NodeInfo) (path : Path) (caption : Caption) :
    Drafting Nat :=
  fun draft =>
    (draft.next,
      ⟨draft.next + 1, draft.log.push (.block ⟨draft.next, kind, node, path, caption⟩)⟩)

/-- Draws an edge. -/
def addEdge (source target : Nat) (flow : Flow) : Drafting Unit :=
  fun draft => ((), { draft with log := draft.log.push (.edge ⟨source, target, flow⟩) })

/-- Notes that the text of a node was cut. -/
def cut (node : NodeInfo) : Drafting Unit :=
  fun draft => ((), { draft with log := draft.log.push (.cut node) })

/-- Notes what could not be done. -/
def fail (fault : Fault) : Drafting Unit :=
  fun draft => ((), { draft with log := draft.log.push (.failed fault) })

/-- Notes a kind that could not be looked up, if there is one. -/
def refuse (kind? : Option Json) : Drafting Unit :=
  match kind? with
  | none => pure ()
  | some kind => fail (.notKey kind.kind)

end Flowchart.Draft
