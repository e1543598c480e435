import Flowchart.Graph.Distinct
import Flowchart.Syntax.Node

/-!
# `Flowchart.Graph.Basic`: control flow graphs

A block is a stretch of source that control enters at one end, and an edge
says which block may come next. An edge out of a decision says which outcome
it stands for. Two edges count as the same when they join the same blocks
and show the same label; an empty label shows as none.

- `Edge.distinct`: a list of edges without repetitions, the first one of each
  kept.
-/

set_option autoImplicit false

namespace Flowchart

/-- What a block stands for. -/
inductive BlockKind where
  /-- The start of a function or of the whole graph. -/
  | entry
  /-- The end of a function. -/
  | exit
  | statement
  | branch
  | loop
  /-- Whatever leaves the current flow: return, break, continue, throw. -/
  | terminator
  | choice
deriving DecidableEq, Repr

/-- The name of a kind. -/
def BlockKind.name : BlockKind → String
  | .entry => "entry"
  | .exit => "exit"
  | .statement => "statement"
  | .branch => "branch"
  | .loop => "loop"
  | .terminator => "return"
  | .choice => "match"

/-- A block of a control flow graph. -/
structure Block where
  id : Text
  label : Text
  statements : List Text
  start : Int
  stop : Int
  startPosition : Position
  stopPosition : Position
  kind : BlockKind
  /-- Where in the syntax tree the block comes from. -/
  path : Text
deriving DecidableEq, Repr

/-- An edge of a control flow graph. -/
structure Edge where
  source : Text
  target : Text
  label : Option Text
deriving DecidableEq, Repr

namespace Edge

/-- The name that an edge is looked up by. -/
def key (edge : Edge) : Text :=
  edge.source ++ "->" ++ edge.target

/-- What tells edges apart: their blocks and the label they show. -/
def face (edge : Edge) : Text × Text × Text :=
  (edge.source, edge.target, edge.label.getD [])

/-- Edges without repetitions, in order, the first of each face kept. -/
def distinct (edges : List Edge) : List Edge :=
  distinctBy face edges

end Edge

/-- A control flow graph: its blocks in the order they were made, and its
edges. -/
structure Graph where
  blocks : List Block
  edges : List Edge
deriving DecidableEq, Repr

namespace Graph

/-- A graph without edges that repeat. -/
def distinct (graph : Graph) : Graph :=
  { graph with edges := Edge.distinct graph.edges }

end Graph

end Flowchart
