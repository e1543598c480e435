import Flowchart.Graph.Distinct
import Flowchart.Json.Key
import Flowchart.Json.Shown

/-!
# `Flowchart.Sketch.Basic`: graphs in which anything may be said

A sketch is a control flow graph that was put together by hand or read from
JSON. Whatever is said of its blocks and edges is kept as it is: any JSON
value can stand for a label, a kind, an id or a place. What is not looked at
is never wrong; ids have to be values that can be looked up where blocks are
looked for.

- `Sketch.lookUpIds`, `Sketch.lookUpEnds`: what cannot be looked up;
- `Edge.distinct`: edges without repetitions.
-/

set_option autoImplicit false

namespace Flowchart

namespace Sketch

/-- A place in a source text. -/
structure Position where
  row : Json
  column : Json

/-- A block of a sketch. -/
structure Block where
  id : Json
  label : Json
  statements : List Json
  start : Json
  stop : Json
  startPosition : Position
  stopPosition : Position
  kind : Json
  path : Json

/-- An edge of a sketch. -/
structure Edge where
  source : Json
  target : Json
  /-- What the edge is labelled with, null if there is nothing. -/
  label : Json

end Sketch

/-- A control flow graph in which anything may be said. -/
structure Sketch where
  blocks : List Sketch.Block
  edges : List Sketch.Edge

namespace Sketch

/-- A position as JSON. -/
def Position.toJson (position : Position) : Json :=
  .object [("row", position.row), ("column", position.column)]

/-- A block as JSON. -/
def Block.toJson (block : Block) : Json :=
  .object [("id", block.id), ("label", block.label), ("statements", .array block.statements),
    ("start", block.start), ("end", block.stop), ("startPosition", block.startPosition.toJson),
    ("endPosition", block.stopPosition.toJson), ("kind", block.kind), ("astPath", block.path)]

namespace Edge

/-- The name that an edge is looked up by. -/
def key (edge : Edge) : Text :=
  edge.source.shown ++ "->" ++ edge.target.shown

/-- The label that an edge shows, if it says something. -/
def shownLabel? (edge : Edge) : Option Json :=
  if edge.label.isTruthy then some edge.label else none

/-- An edge as JSON. An edge without a label to show has no such member. -/
def toJson (edge : Edge) : Json :=
  let ends : Json.Members := [("from", edge.source), ("to", edge.target)]
  let label : Json.Members := edge.shownLabel?.toList.map fun label => ("label", label)
  .object (ends ++ label)

/-- The label that tells edges apart. All that says nothing is the same. -/
def faceLabel (edge : Edge) : Json :=
  edge.shownLabel?.getD (.string [])

/-- What tells edges apart: their blocks and the label they show. -/
def face (edge : Edge) : Json.Key × Json.Key × Json.Key :=
  (edge.source.key, edge.target.key, edge.faceLabel.key)

/-- Looks up what tells an edge apart. -/
def lookUpFace (edge : Edge) : Except Fault Unit := do
  edge.source.lookUp
  edge.target.lookUp
  edge.faceLabel.lookUp

/-- Edges without repetitions, in order, the first of each face kept. -/
def distinct (edges : List Edge) : Except Fault (List Edge) := do
  edges.forM lookUpFace
  return distinctBy face edges

end Edge

/-- A sketch as JSON. -/
def toJson (sketch : Sketch) : Json :=
  .object [("blocks", .array (sketch.blocks.map Block.toJson)),
    ("edges", .array (sketch.edges.map Edge.toJson))]

/-- Looks up the ids of the blocks, and the blocks that edges join. The
target of an edge is only looked for if its source was found. -/
def lookUpIds (sketch : Sketch) : Except Fault Unit := do
  sketch.blocks.forM fun block => block.id.lookUp
  let known := sketch.blocks.map fun block => block.id.key
  sketch.edges.forM fun edge => do
    edge.source.lookUp
    if known.contains edge.source.key then edge.target.lookUp

/-- Looks up both ends of each edge. -/
def lookUpEnds (sketch : Sketch) : Except Fault Unit :=
  sketch.edges.forM fun edge => do
    edge.source.lookUp
    edge.target.lookUp

end Sketch

end Flowchart
