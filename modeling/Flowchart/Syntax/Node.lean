import Flowchart.Json.Basic
import Flowchart.Syntax.Tree

/-!
# `Flowchart.Syntax.Node`: syntax trees

A syntax tree is what a parser makes of a source text. Each node has the
kind that the grammar gives it, the bytes of the UTF-8 source that it
covers, and the positions of both ends. A named node stands for something
in the language; the others are punctuation and keywords.

Grammars give every kind a name. A tree that was read from JSON may say any
value for a kind, and keeps it.
-/

set_option autoImplicit false

namespace Flowchart

/-- A place in the source text, counted from zero. -/
structure Position where
  row : Int
  column : Int
deriving DecidableEq, Repr, Inhabited

/-- What one node of a syntax tree says. -/
structure NodeInfo where
  kind : Json
  /-- The offset of the first byte. -/
  start : Int
  /-- The offset behind the last byte. -/
  stop : Int
  startPosition : Position
  stopPosition : Position
  isNamed : Bool
deriving Inhabited

/-- A syntax tree. -/
abbrev SyntaxTree := Tree NodeInfo

namespace SyntaxTree

/-- The kind of the root. -/
def kind (t : SyntaxTree) : Json :=
  t.label.kind

/-- Whether the root is named. -/
def isNamed (t : SyntaxTree) : Bool :=
  t.label.isNamed

/-- The named children of the root. -/
def namedChildren (t : SyntaxTree) : List SyntaxTree :=
  t.children.filter isNamed

end SyntaxTree

end Flowchart
