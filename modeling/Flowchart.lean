import Flowchart.Text.CodePoint
import Flowchart.Text.Blank
import Flowchart.Text.DecimalDigit
import Flowchart.Text.Unprintable
import Flowchart.Text.Quoted
import Flowchart.Text.Encoded
import Flowchart.Text.Slice
import Flowchart.Text.Line
import Flowchart.Text.Numeral
import Flowchart.Text.Utf8
import Flowchart.Number.Arithmetic
import Flowchart.Number.Exact
import Flowchart.Number.Rounding
import Flowchart.Number.Scalar
import Flowchart.Number.Shortest
import Flowchart.Number.Written
import Flowchart.Fault
import Flowchart.Notice
import Flowchart.Json.Basic
import Flowchart.Json.Items
import Flowchart.Json.Comparison
import Flowchart.Json.Arithmetic
import Flowchart.Json.Reader
import Flowchart.Json.Writer
import Flowchart.Json.Shown
import Flowchart.Json.Key
import Flowchart.Syntax.Tree
import Flowchart.Syntax.Node
import Flowchart.Syntax.Json
import Flowchart.Syntax.Parsed
import Flowchart.Kinds.KindSet
import Flowchart.Kinds.Table
import Flowchart.Kinds.Json
import Flowchart.Kinds.Marks
import Flowchart.Graph.Distinct
import Flowchart.Graph.Basic
import Flowchart.Sketch.Basic
import Flowchart.Sketch.Graph
import Flowchart.Diagram.Basic
import Flowchart.Diagram.Links
import Flowchart.Draft.Basic
import Flowchart.Draft.Lookup
import Flowchart.Draft.Construct
import Flowchart.Draft.Serve
import Flowchart.Draft.Wording
import Flowchart.Source
import Flowchart.Builder
import Flowchart.Metrics.Cells
import Flowchart.Metrics.Font
import Flowchart.Layout.Camera
import Flowchart.Layout.Layering
import Flowchart.Layout.Ordering
import Flowchart.Layout.Style
import Flowchart.Layout.Placement
import Flowchart.Layout.Query
import Flowchart.Layout.Json
import Flowchart.Files.Path
import Flowchart.Files.Tree
import Flowchart.Language.Basic
import Flowchart.Language.Parsing
import Flowchart.Settings
import Flowchart.CommandLine.Word
import Flowchart.CommandLine.Request
import Flowchart.CommandLine.Wording
import Flowchart.CommandLine.Run
import Flowchart.Main
import Flowchart.Proofs.Text.Line
import Flowchart.Proofs.Syntax.Subtrees
import Flowchart.Proofs.Kinds.Marks
import Flowchart.Proofs.Graph.Distinct
import Flowchart.Proofs.Draft.Adds
import Flowchart.Proofs.Draft.Recursion
import Flowchart.Proofs.Draft.Written
import Flowchart.Proofs.Draft.Faultless
import Flowchart.Proofs.Kinds.Tokens
import Flowchart.Proofs.Outline.Basic
import Flowchart.Proofs.Outline.Request
import Flowchart.Proofs.Outline.Drafted
import Flowchart.Proofs.Outline.Pieces
import Flowchart.Proofs.Outline.Sealed
import Flowchart.Proofs.Outline.Within
import Flowchart.Proofs.Outline.Served
import Flowchart.Proofs.Outline.Order
import Flowchart.Proofs.Outline.Constructs
import Flowchart.Proofs.Outline.Region
import Flowchart.Proofs.Outline.Shape
import Flowchart.Proofs.Outline.Tokens
import Flowchart.Proofs.Outline.Walks
import Flowchart.Proofs.Outline.Traces
import Flowchart.Proofs.Layering.Recursion
import Flowchart.Proofs.Layering.Steps
import Flowchart.Proofs.Layering.Descent
import Flowchart.Proofs.Except
import Flowchart.Proofs.Number.Exact
import Flowchart.Proofs.Number.Range
import Flowchart.Proofs.Json.Lengths
import Flowchart.Proofs.Json.Members
import Flowchart.Proofs.Json.Reader
import Flowchart.Proofs.Layout.Rows
import Flowchart.Proofs.Layout.Success
import Flowchart.Proofs.Layout.Ordering
import Flowchart.Proofs.Layout.Arrangement
import Flowchart.Proofs.Layout.Separation
import Flowchart.Proofs.Layout.Camera
import Flowchart.Proofs.Layout.Zooming
import Flowchart.Proofs.Layout.Framing
import Flowchart.Proofs.Layout.Centring
import Flowchart.Proofs.Layout.Numbers
import Flowchart.Proofs.Settings.Loading
import Flowchart.Proofs.Settings.Precedence
import Flowchart.Proofs.Builder.Limit
import Flowchart.Proofs.Syntax.Parsed
import Flowchart.Proofs.Syntax.Reading
import Flowchart.Proofs.Syntax.RoundTrip
import Flowchart.Proofs.Syntax.Copying
import Flowchart.Proofs.CommandLine.Outcome
import Flowchart.Proofs.Diagram.Cycles
import Flowchart.Proofs.Diagram.Rearranged
import Flowchart.Proofs.Layout.Tightness
import Flowchart.Proofs.Layout.LongestPath
import Flowchart.Proofs.Layout.BackEdges
import Flowchart.Proofs.Builder.Listing
import Flowchart.Proofs.Builder.Order
import Flowchart.Proofs.Builder.BackEdges
import Flowchart.Proofs.Builder.Steps
import Flowchart.Proofs.Builder.Tokens
import Flowchart.Proofs.Kinds.Extension
import Flowchart.Proofs.Kinds.Agreement
import Flowchart.Proofs.Builder.Agreement
import Flowchart.Proofs.Draft.Rounds
import Flowchart.Proofs.Builder.Simple
import Flowchart.Proofs.Builder.Outgoing
import Flowchart.Proofs.Outline.Reaches
import Flowchart.Proofs.Builder.Reachable
import Flowchart.Proofs.Syntax.Without
import Flowchart.Proofs.Syntax.Tagged
import Flowchart.Proofs.Kinds.Flags
import Flowchart.Proofs.Draft.Tagged
import Flowchart.Proofs.Kinds.Known
import Flowchart.Proofs.Builder.Ledger
import Flowchart.Proofs.Builder.Labels
import Flowchart.Proofs.Builder.Arms
import Flowchart.Proofs.Draft.Paths
import Flowchart.Proofs.Builder.Paths
import Flowchart.Proofs.Outline.Sequencing
import Flowchart.Proofs.Outline.Comments
import Flowchart.Proofs.Builder.Comments
import Flowchart.Proofs.Text.Spelling
import Flowchart.Proofs.Text.Cuts
import Flowchart.Proofs.Text.Shortened
import Flowchart.Proofs.Graph.Faces
import Flowchart.Proofs.Draft.Wrapped
import Flowchart.Proofs.Metrics.Font
