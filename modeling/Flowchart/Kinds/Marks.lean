import Flowchart.Kinds.Table
import Flowchart.Syntax.Node

/-!
# `Flowchart.Kinds.Marks`: which nodes hold structure

A node without a category can still hold nodes that have one, such as a
declaration with a function in it. Marking a tree notes this at every node
in one pass from the leaves to the root; a scan of the subtree asks the
same of a single node.

A kind that is a list or an object cannot be looked up. Marking takes it for
one without a category; `markRefusal?` is the first such kind that marking
comes upon, and `scan` is a scan that ends there.

- `mark_label`: marking changes nothing that a node says.
-/

set_option autoImplicit false

namespace Flowchart

/-- What a node says, with a mark on nodes that hold structure. -/
structure MarkedInfo extends NodeInfo where
  /-- Whether a descendant has a category. -/
  structural : Bool

/-- A tree with a mark at every node. -/
abbrev MarkedTree := Tree MarkedInfo

namespace MarkedTree

/-- The kind of the root. -/
def kind (t : MarkedTree) : Json :=
  t.label.kind

/-- Whether the root is named. -/
def isNamed (t : MarkedTree) : Bool :=
  t.label.isNamed

/-- The named children of the root. -/
def namedChildren (t : MarkedTree) : List MarkedTree :=
  t.children.filter isNamed

end MarkedTree

namespace KindTable

/-- Whether a tree has a category or holds a node that has one. -/
def showsStructure (table : KindTable) (t : MarkedTree) : Bool :=
  t.label.structural || table.isStructural t.kind

mutual

/-- A tree with its nodes marked. -/
def mark (table : KindTable) : SyntaxTree → MarkedTree
  | .node info children =>
    let marked := markAll table children
    .node ⟨info, marked.any table.showsStructure⟩ marked

/-- A row of trees with their nodes marked. -/
def markAll (table : KindTable) : List SyntaxTree → List MarkedTree
  | [] => []
  | t :: ts => mark table t :: markAll table ts

end

/-- Whether a proper descendant has a category, by a scan of the subtree. -/
def hasStructuralDescendant (table : KindTable) (t : SyntaxTree) : Bool :=
  (Tree.allSubtrees t.children).any fun s => table.isStructural s.label.kind

/-- Whether the children of a marked node are to be chained: the node is a
row of statements, or a named node that holds structure. -/
def isContainer (table : KindTable) (info : MarkedInfo) : Bool :=
  table.has .containers info.kind || (info.isNamed && info.structural)

/-- Whether the children of a node are to be chained, by a scan of the
subtree. -/
def isContainerByScan (table : KindTable) (t : SyntaxTree) : Bool :=
  table.has .containers t.kind || (t.isNamed && table.hasStructuralDescendant t)

/-- Whether a kind is a comment. -/
def isComment (table : KindTable) (kind : Json) : Bool :=
  table.has .comments kind

/-! ### Kinds that cannot be looked up -/

/-- The first kind that cannot be looked up among those of a row of marked
trees, which are asked for until one of them shows structure. -/
def rowRefusal? (table : KindTable) : List MarkedTree → Option Json
  | [] => none
  | t :: ts =>
    if t.label.structural then none
    else if !t.kind.isKey then some t.kind
    else if table.isStructural t.kind then none
    else rowRefusal? table ts

mutual

/-- The first kind that cannot be looked up while a tree is marked. The
children of a node come before the node, and the last child first. -/
def markRefusal? (table : KindTable) : MarkedTree → Option Json
  | .node _ children => (markRefusals? table children).or (rowRefusal? table children)

/-- The same for a row of trees. -/
def markRefusals? (table : KindTable) : List MarkedTree → Option Json
  | [] => none
  | t :: ts => (markRefusals? table ts).or (markRefusal? table t)

end

/-- Whether a proper descendant has a category, by a scan of the subtree that
ends at the first kind that has one or cannot be looked up. -/
def scan (table : KindTable) (t : SyntaxTree) : Except Fault Bool :=
  (Tree.allBackward t.children).anyM fun s => do
    s.label.kind.lookUp
    return table.isStructural s.label.kind

/-- A marked node says what it said. -/
theorem mark_label (table : KindTable) (t : SyntaxTree) :
    (table.mark t).label.toNodeInfo = t.label := by
  cases t
  simp [mark]

end KindTable

end Flowchart
