import Flowchart.Sketch.Graph

/-!
# `Flowchart.Diagram.Basic`: boxes and arrows

A diagram is what a layout arranges: boxes that hold texts, and arrows from
box to box. What tells boxes apart can be of any type; how boxes and arrows
look as JSON is kept beside it. Graphs are diagrams, and so are sketches,
whose ids are told apart by their keys.

- `ids`: what tells the boxes apart, in order;
- `Graph.diagram`, `Sketch.diagram`: graphs and sketches as diagrams.
-/

set_option autoImplicit false

namespace Flowchart

/-- A box of a diagram. -/
structure Box (ι : Type) where
  id : ι
  /-- The id as it is shown. -/
  name : Json
  /-- The text on top. -/
  label : Json
  /-- The texts below it. -/
  lines : List Json
  /-- All that is said of the box. -/
  json : Json

/-- An arrow of a diagram. -/
structure Arrow (ι : Type) where
  source : ι
  target : ι
  /-- The name that the arrow is looked up by. -/
  key : Text
  /-- All that is said of the arrow. -/
  json : Json

/-- Boxes in the order in which they were made, and arrows between them. -/
structure Diagram (ι : Type) where
  boxes : List (Box ι)
  arrows : List (Arrow ι)

namespace Diagram

variable {ι : Type}

/-- What tells the boxes apart, in order. -/
def ids (diagram : Diagram ι) : List ι :=
  diagram.boxes.map Box.id

/-- The first box that shows an id. -/
def box? (diagram : Diagram ι) (name : Json) : Option (Box ι) :=
  diagram.boxes.find? fun box => Json.equal box.name name

end Diagram

/-- A block as a box. -/
def Block.box (block : Block) : Box Text :=
  ⟨block.id, .string block.id, .string block.label, block.statements.map .string, block.toJson⟩

/-- An edge as an arrow. -/
def Edge.arrow (edge : Edge) : Arrow Text :=
  ⟨edge.source, edge.target, edge.key, edge.toJson⟩

/-- A graph as a diagram. -/
def Graph.diagram (graph : Graph) : Diagram Text :=
  ⟨graph.blocks.map Block.box, graph.edges.map Edge.arrow⟩

namespace Sketch

/-- A block of a sketch as a box. -/
def Block.box (block : Block) : Box Json.Key :=
  ⟨block.id.key, block.id, block.label, block.statements, block.toJson⟩

/-- An edge of a sketch as an arrow. -/
def Edge.arrow (edge : Edge) : Arrow Json.Key :=
  ⟨edge.source.key, edge.target.key, edge.key, edge.toJson⟩

/-- A sketch as a diagram. -/
def diagram (sketch : Sketch) : Diagram Json.Key :=
  ⟨sketch.blocks.map Block.box, sketch.edges.map Edge.arrow⟩

end Sketch

end Flowchart
