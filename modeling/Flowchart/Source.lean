import Flowchart.Syntax.Node
import Flowchart.Text.Encoded
import Flowchart.Text.Slice
import Flowchart.Text.Utf8

/-!
# `Flowchart.Source`: the text that a tree was parsed from

Nodes point into the UTF-8 form of the source by the offsets of bytes. An
offset below zero counts from the end, and one beyond the end is moved
there. What is cut out inside a character reads as replacement characters.
-/

set_option autoImplicit false

namespace Flowchart

/-- A source text in UTF-8. -/
structure Source where
  bytes : ByteArray

namespace Source

/-- The source with the given text. A text with half of a surrogate pair in
it is none. -/
def ofText (text : Text) : Except Text.Encoded.Fault Source :=
  (Text.Encoded.encode text).map fun bytes => ⟨⟨bytes.toArray⟩⟩

/-- The bytes between two offsets. -/
def bytesBetween (source : Source) (start stop : Int) : List UInt8 :=
  let size := source.bytes.size
  (source.bytes.extract (Text.place size start) (Text.place size stop)).data.toList

/-- The text that a node covers. -/
def textOf (source : Source) (node : NodeInfo) : Text :=
  Text.Utf8.readLenient (source.bytesBetween node.start node.stop)

end Source

end Flowchart
