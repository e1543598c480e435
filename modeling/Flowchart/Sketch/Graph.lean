import Flowchart.Graph.Basic
import Flowchart.Sketch.Basic

/-!
# `Flowchart.Sketch.Graph`: a graph as a sketch

Every control flow graph is a sketch: its texts, numbers and kinds are JSON
values. The JSON form of a graph is the one of its sketch.
-/

set_option autoImplicit false

namespace Flowchart

/-- A position as one of a sketch. -/
def Position.sketch (position : Position) : Sketch.Position :=
  ⟨.int position.row, .int position.column⟩

/-- A block as one of a sketch. -/
def Block.sketch (block : Block) : Sketch.Block where
  id := .string block.id
  label := .string block.label
  statements := block.statements.map .string
  start := .int block.start
  stop := .int block.stop
  startPosition := block.startPosition.sketch
  stopPosition := block.stopPosition.sketch
  kind := .string block.kind.name
  path := .string block.path

/-- An edge as one of a sketch. -/
def Edge.sketch (edge : Edge) : Sketch.Edge :=
  ⟨.string edge.source, .string edge.target, edge.label.elim .null .string⟩

/-- A graph as a sketch. -/
def Graph.sketch (graph : Graph) : Sketch :=
  ⟨graph.blocks.map Block.sketch, graph.edges.map Edge.sketch⟩

/-- A block as JSON. -/
def Block.toJson (block : Block) : Json :=
  block.sketch.toJson

/-- An edge as JSON. -/
def Edge.toJson (edge : Edge) : Json :=
  edge.sketch.toJson

/-- A graph as JSON. -/
def Graph.toJson (graph : Graph) : Json :=
  graph.sketch.toJson

end Flowchart
