import Flowchart.Draft.Wording
import Flowchart.Json.Items
import Flowchart.Notice
import Flowchart.Sketch.Graph

/-!
# `Flowchart.Builder`: building graphs step by step

A builder holds one source and the graph under way, as a sketch. Blocks and
edges can be added one at a time, and anything may be said of them; building
a whole tree starts over, so its result does not depend on what was there
before. Block ids come from a counter that building resets. A build that
comes upon a fault leaves what it had built by then, and an entry is only put
in front of a finished graph.

- `build_eq_graphOf`: with a whole number as the limit and nothing that
  fails, building gives the graph of the tree;
- `build_forgets`: what a builder held before makes no difference.
-/

set_option autoImplicit false

namespace Flowchart

/-- A graph under way. -/
structure Builder where
  source : Source
  table : KindTable
  /-- The most characters that a label may have, as the settings say it. -/
  limit : Json
  blocks : List Sketch.Block
  edges : List Sketch.Edge
  /-- The number of the next block. -/
  next : Nat

namespace Builder

/-- A builder with nothing in it. -/
def new (source : Source) (table : KindTable) (limit : Json) : Builder :=
  ⟨source, table, limit, [], [], 0⟩

/-- Adds a block that covers a node. The lines below its label are what a
value consists of; null stands for no lines. -/
def newBlock (builder : Builder) (label kind : Json) (node : NodeInfo) (path lines : Json) :
    Except Fault (Builder × Sketch.Block) := do
  let statements ← match lines with
    | .null => pure []
    | lines => lines.items
  let block : Sketch.Block := {
    id := .string (Draft.idOf builder.next)
    label, statements, kind, path
    start := .int node.start
    stop := .int node.stop
    startPosition := node.startPosition.sketch
    stopPosition := node.stopPosition.sketch }
  return ({ builder with blocks := builder.blocks ++ [block], next := builder.next + 1 }, block)

/-- Adds an edge. -/
def addEdge (builder : Builder) (edge : Sketch.Edge) : Builder :=
  { builder with edges := builder.edges ++ [edge] }

/-- The headline of the text that a node covers, cut to a limit of its own or
else to the one of the builder. A limit of zero is none. -/
def summary (builder : Builder) (node : NodeInfo) (limit : Json) : Except Fault Text :=
  Text.shortenBy (if limit.isTruthy then limit else builder.limit) (builder.source.textOf node)

/-- A builder that holds a graph and nothing else. -/
def holding (builder : Builder) (graph : Graph) : Builder :=
  { builder with
    blocks := graph.sketch.blocks, edges := graph.sketch.edges, next := graph.blocks.length }

/-- A graph with an entry put in front of it, if one is needed. -/
def promoted (source : Source) (result : Draft.Result) (graph : Graph) : Graph where
  blocks := (result.entry?.map (Draft.Block.writeWithin source 0)).toList ++ graph.blocks
  edges := graph.edges ++ (result.entryEdge?.map (Draft.Edge.write source)).toList

/-- The notices that a build leaves. -/
def notices (result : Draft.Result) (graph : Graph) : List Notice :=
  (result.entryEdge?.map fun edge =>
    Notice.entryPromoted (Draft.idOf edge.source) (Draft.idOf edge.target)).toList ++
      [.graphBuilt graph.blocks.length graph.edges.length]

/-- Builds the graph of a whole tree, or as much of it as can be built. -/
def build (builder : Builder) (tree : SyntaxTree) :
    Builder × Except Fault (Graph × List Notice) :=
  let marked := builder.table.mark tree
  match builder.table.markRefusal? marked with
  | some kind => (builder.holding ⟨[], []⟩, .error (.notKey kind.kind))
  | none =>
    let result := Draft.draft builder.table marked
    match Draft.writeLog builder.source builder.limit .nothing result.draft.log.toList with
    | (written, some fault) => (builder.holding written.graph, .error fault)
    | (written, none) =>
      let built := promoted builder.source result written.graph
      (builder.holding built, .ok (built.distinct, notices result built.distinct))

/-- Whatever a builder held, it builds the same. -/
theorem build_forgets (builder : Builder) (blocks : List Sketch.Block)
    (edges : List Sketch.Edge) (next : Nat) (tree : SyntaxTree) :
    { builder with blocks, edges, next }.build tree = builder.build tree :=
  rfl

/-- An entry is written without regard to any limit. -/
theorem writeWithin_entry (source : Source) (n k : Int) (result : Draft.Result) :
    result.entry?.map (Draft.Block.writeWithin source n) =
      result.entry?.map (Draft.Block.writeWithin source k) := by
  cases hp : result.promoted with
  | none => simp [Draft.Result.entry?, hp]
  | some target =>
    simp only [Draft.Result.entry?, hp, Option.map_some]
    rfl

/-- With a whole number as the limit and nothing that fails, building gives
the graph of the tree. -/
theorem build_eq_graphOf (builder : Builder) (n : Int) (tree : SyntaxTree)
    (hlimit : builder.limit = .int n)
    (hmark : builder.table.markRefusal? (builder.table.mark tree) = none)
    (hlog : ∀ fault, .failed fault ∉
      (Draft.draft builder.table (builder.table.mark tree)).draft.log.toList) :
    (builder.build tree).2.map Prod.fst =
      .ok (graphOf builder.table builder.source n tree) := by
  rw [build]
  simp only [hmark, hlimit, Draft.writeLog_int _ _ _ _ hlog]
  simp [Except.map, promoted, graphOf, Draft.Result.blocks, Draft.Result.edges,
    Draft.blocks, Draft.edges, Draft.Written.nothing, Draft.Written.graph,
    writeWithin_entry builder.source 0 n, Option.toList_map]

end Builder

end Flowchart
