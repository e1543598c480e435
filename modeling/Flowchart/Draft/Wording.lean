import Flowchart.Draft.Serve
import Flowchart.Fault
import Flowchart.Source
import Flowchart.Text.Line

/-!
# `Flowchart.Draft.Wording`: writing the texts of a draft

A draft becomes a graph when its numbers are turned into ids and its
captions into texts. Texts are cut to a limit that comes from the settings
and may be no number at all, so writing can fail; with a whole number it
never does. Writing follows the log of the draft and ends at the first
fault, so what was written by then is known.

- `graphOf`: the graph of a tree, with labels of a whole number of characters;
- `writeLog`: the blocks and edges of a log, up to the first fault;
- `writeLog_int`: with a whole number as the limit and nothing that failed,
  all of a log is written.
-/

set_option autoImplicit false

namespace Flowchart

open Number (Scalar)

namespace Text

/-- The headline of a text, cut to a limit from the settings. A limit that is
no number has no order, and a fraction cannot be cut to. -/
def shortenBy (limit : Json) (text : Text) : Except Fault Text :=
  let line := headline text
  match limit.scalar? with
  | none => .error (.incomparable .greater "int" limit.kind)
  | some bound =>
    if Scalar.holds .greater (.int line.length) bound then
      match bound with
      | .int n => .ok (cutLine n line)
      | .double _ => .error .badCut
    else .ok line

/-- Cutting to a whole number always succeeds. -/
theorem shortenBy_int (n : Int) (text : Text) :
    shortenBy (.int n) text = .ok (shorten n text) := by
  have h : Scalar.holds .greater (.int (headline text).length) (.int n) =
      decide (((headline text).length : Int) > n) := by
    simp only [Scalar.holds, Scalar.compare?, Option.any_some, compare, compareOfLessAndEq]
    split
    · simp [Relation.accepts]
      omega
    · split <;> simp [Relation.accepts] <;> omega
  simp only [shortenBy, Json.int, Json.scalar?, h, shorten, decide_eq_true_eq]
  split <;> rfl

end Text

namespace Draft

/-- The id of a block. -/
def idOf (number : Nat) : Text :=
  "cfg_" ++ toString number

section

variable {m : Type → Type} [Monad m]

/-- The label of a caption and the lines below it. `shorten` cuts the texts
whose length the settings limit. -/
def Caption.write (source : Source) (shorten : Text → m Text) (node : NodeInfo) :
    Caption → m (Text × List Text)
  | .whole => do
    let label ← shorten (source.textOf node)
    return (label, [label])
  | .branch condition => do
    let text ← match condition with
      | some condition => shorten (source.textOf condition)
      | none => pure "condition"
    let label := "if " ++ text
    return (label, [label])
  | .loop word condition => do
    let text ← match condition with
      | some condition => shorten (source.textOf condition)
      | none => pure []
    let label := if text.isEmpty then word else word ++ " " ++ text
    return (label, [label])
  -- The label of a choice and that of a function have fixed limits, whatever the settings say.
  | .choice => return ("match", [Text.shorten 32 (source.textOf node)])
  | .function name =>
    let label : Text := name.elim "fn" fun name => "fn " ++ Text.shorten 24 (source.textOf name)
    return (label, [label])
  | .fixed text => return (text, [text])

/-- A block with its texts written. -/
def Block.write (source : Source) (shorten : Text → m Text) (block : Block) :
    m Flowchart.Block := do
  let (label, statements) ← block.caption.write source shorten block.node
  return {
    id := idOf block.number
    label
    statements
    start := block.node.start
    stop := block.node.stop
    startPosition := block.node.startPosition
    stopPosition := block.node.stopPosition
    kind := block.kind
    path := Path.text block.path }

end

/-- A block with its texts written, cut to a whole number of characters. -/
def Block.writeWithin (source : Source) (limit : Int) (block : Block) : Flowchart.Block :=
  Id.run (block.write source fun text => pure (Text.shorten limit text))

/-- The label of an edge. An arm is named by its named children, or by its
number if they say nothing. -/
def Flow.label (source : Source) : Flow → Option Text
  | .onward => none
  | .whenTrue => some "true"
  | .whenFalse => some "false"
  | .body => some "body"
  | .next => some "next"
  | .arm index names =>
    let parts := Text.joined " " (names.map fun name => Text.shorten 20 (source.textOf name))
    some (Text.shorten 24 (if parts.isEmpty then "arm " ++ toString index else parts))

/-- An edge with its label written. -/
def Edge.write (source : Source) (edge : Edge) : Flowchart.Edge :=
  ⟨idOf edge.source, idOf edge.target, edge.flow.label source⟩

/-- The blocks and edges that have been written. -/
structure Written where
  blocks : Array Flowchart.Block
  edges : Array Flowchart.Edge

/-- Nothing written. -/
def Written.nothing : Written :=
  ⟨#[], #[]⟩

/-- What has been written, as a graph. Its edges may repeat. -/
def Written.graph (written : Written) : Graph :=
  ⟨written.blocks.toList, written.edges.toList⟩

/-- Writes the blocks and edges of a log behind those that have been written,
up to the first fault. -/
def writeLog (source : Source) (limit : Json) : Written → List Event → Written × Option Fault
  | written, [] => (written, none)
  | written, .block block :: rest =>
    match block.write source (Text.shortenBy limit) with
    | .ok made => writeLog source limit { written with blocks := written.blocks.push made } rest
    | .error fault => (written, some fault)
  | written, .edge edge :: rest =>
    writeLog source limit { written with edges := written.edges.push (edge.write source) } rest
  | written, .cut node :: rest =>
    match Text.shortenBy limit (source.textOf node) with
    | .ok _ => writeLog source limit written rest
    | .error fault => (written, some fault)
  | written, .failed fault :: _ => (written, some fault)

/-- A whole number as the limit never keeps a block from being written. -/
theorem write_shortenBy_int (source : Source) (n : Int) (block : Block) :
    block.write source (Text.shortenBy (.int n)) = .ok (block.writeWithin source n) := by
  rw [funext (Text.shortenBy_int n)]
  obtain ⟨number, kind, node, path, caption⟩ := block
  cases caption with
  | branch condition => cases condition <;> rfl
  | loop word condition => cases condition <;> rfl
  | whole => rfl
  | choice => rfl
  | function name => rfl
  | fixed text => rfl

/-- With a whole number as the limit, a log in which nothing failed is
written to its end. -/
theorem writeLog_int (source : Source) (n : Int) (written : Written) (log : List Event)
    (h : ∀ fault, .failed fault ∉ log) :
    writeLog source (.int n) written log =
      (⟨written.blocks ++ (log.filterMap Event.block?).map (Block.writeWithin source n),
        written.edges ++ (log.filterMap Event.edge?).map (Edge.write source)⟩, none) := by
  induction log generalizing written with
  | nil => simp [writeLog]
  | cons event rest ih =>
    have hrest : ∀ fault, .failed fault ∉ rest := fun fault hf =>
      h fault (List.mem_cons_of_mem event hf)
    cases event with
    | block block =>
      rw [writeLog, write_shortenBy_int]
      simp [ih _ hrest, List.filterMap_cons, Event.block?, Event.edge?]
    | edge edge =>
      rw [writeLog]
      simp [ih _ hrest, List.filterMap_cons, Event.block?, Event.edge?]
    | cut node =>
      rw [writeLog, Text.shortenBy_int]
      simp [ih _ hrest, List.filterMap_cons, Event.block?, Event.edge?]
    | failed fault => exact absurd List.mem_cons_self (h fault)

end Draft

/-- The control flow graph of a syntax tree, with labels of at most `limit`
characters. -/
def graphOf (table : KindTable) (source : Source) (limit : Int) (tree : SyntaxTree) : Graph :=
  let result := Draft.draft table (table.mark tree)
  Graph.distinct ⟨result.blocks.map (Draft.Block.writeWithin source limit),
    result.edges.map (Draft.Edge.write source)⟩

end Flowchart
