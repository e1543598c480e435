import Flowchart.Text.Encoded

/-!
# `Flowchart.Files.Path`: paths of files

A path is a row of names between slashes, starting at the root or not.
Empty names and single dots say nothing and are left out; double dots stay,
since what they lead to is for the files to say. Exactly two slashes at the
front are a root of their own.

Files are found by the bytes of their names. The halves of surrogate pairs
from `U+DC80` to `U+DCFF` stand for single bytes that are no UTF-8; a text
with any other half, or with a NUL, spells no path that could be looked up.

- `FilePath.name?`, `suffix`: the last name of a path and where its kind begins;
- `bytes?`: the bytes that a text is looked up by.
-/

set_option autoImplicit false

namespace Flowchart

/-- Where a path starts. -/
inductive FilePathRoot where
  | relative
  | absolute
  /-- Two slashes at the front, which are kept. -/
  | doubled
deriving DecidableEq, Repr

/-- A path: where it starts, and its names. -/
structure FilePath where
  root : FilePathRoot
  names : List Text
deriving DecidableEq, Repr

namespace FilePath

/-- The slash between names. -/
def slash : CodePoint := 0x2f

/-- The dot in front of a suffix. -/
def dot : CodePoint := 0x2e

/-- Text cut at its slashes. -/
def splitSlashes : Text → List Text
  | [] => [[]]
  | c :: rest =>
    if c == slash then [] :: splitSlashes rest
    else
      match splitSlashes rest with
      | [] => [[c]]
      | first :: others => (c :: first) :: others

/-- Where a text starts as a path. -/
def rootOf (text : Text) : FilePathRoot :=
  match (text.takeWhile (· == slash)).length with
  | 0 => .relative
  | 2 => .doubled
  | _ => .absolute

/-- Whether a name says something. -/
def isName (name : Text) : Bool :=
  !name.isEmpty && name != [dot]

/-- The path that a text spells. -/
def ofText (text : Text) : FilePath where
  root := rootOf text
  names := (splitSlashes text).filter isName

/-- The slashes at the front of a path. -/
def slashes : FilePathRoot → Text
  | .relative => []
  | .absolute => [slash]
  | .doubled => [slash, slash]

/-- A path as text. One without names that starts nowhere is a dot. -/
def text (path : FilePath) : Text :=
  let spelling := slashes path.root ++ Text.joined [slash] path.names
  if spelling.isEmpty then [dot] else spelling

/-- A path that starts where another one ends, unless it starts at the root. -/
def join (base path : FilePath) : FilePath :=
  match path.root with
  | .relative => ⟨base.root, base.names ++ path.names⟩
  | _ => path

/-- The last name of a path. -/
def name? (path : FilePath) : Option Text :=
  path.names.getLast?

/-- The suffix of a name: what starts at its last dot. A dot at either end
of the name starts none. -/
def suffixOf (name : Text) : Text :=
  let behind := (name.reverse.takeWhile (· != dot)).reverse
  match name.reverse.dropWhile (· != dot) with
  | _ :: _ :: _ => if behind.isEmpty then [] else dot :: behind
  | _ => []

/-- The suffix of the last name of a path. -/
def suffix (path : FilePath) : Text :=
  suffixOf (path.name?.getD [])

/-- The bytes that a code point of a name stands for. -/
def codePointBytes? (c : CodePoint) : Option (List UInt8) :=
  if 0xDC80 ≤ c.val && c.val ≤ 0xDCFF then some [UInt8.ofNat (c.val - 0xDC00)]
  else if c.isSurrogate || c == 0 then none
  else some (Text.Encoded.bytesOf c)

/-- The bytes that a text is looked up by, if it can be. -/
def bytes? (text : Text) : Option (List UInt8) :=
  (text.mapM codePointBytes?).map List.flatten

end FilePath

end Flowchart
