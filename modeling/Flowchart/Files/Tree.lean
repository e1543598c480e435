import Flowchart.Files.Path

/-!
# `Flowchart.Files.Tree`: files and directories

What lies at a path is a file, a directory or nothing, unless the question is
refused: a path can be too long for it, and a directory on the way can be closed.
A file that is there need not be readable either.

A tree holds files in memory and answers the same question: it follows a path
name by name, a double dot leading back to the directory above, and every name
that is followed has to lie in a directory that can be searched. A path may have
up to 4095 bytes, and each name that is come to up to 255.

- `Refusal`: why a path is not looked up;
- `FileTree.look`: what lies at a path of a tree.
-/

set_option autoImplicit false

namespace Flowchart

/-- Why a path is not looked up. -/
inductive Refusal where
  /-- The path, or a name in it, is too long. -/
  | tooLong
  /-- A directory on the way may not be searched. -/
  | denied
deriving DecidableEq, Repr

namespace Refusal

/-- The number of a refusal among the errors of a system. -/
def number : Refusal → Nat
  | .tooLong => 36
  | .denied => 13

/-- What a refusal is called. -/
def reason : Refusal → String
  | .tooLong => "File name too long"
  | .denied => "Permission denied"

/-- The wording for a path that is refused. -/
def message (refusal : Refusal) (path : Text) : Text :=
  "[Errno " ++ toString refusal.number ++ "] " ++ refusal.reason ++ ": " ++ Text.quoted path

end Refusal

/-- What lies at a path. -/
inductive Entry where
  | missing
  | directory
  | file (bytes : List UInt8)
  /-- A file is there, but may not be read. -/
  | unreadable
  /-- The path is not looked up at all. -/
  | refused (refusal : Refusal)
deriving DecidableEq, Repr

/-- What lies where, for every path. -/
abbrev Files := Text → Entry

/-- The name of a file, in bytes. -/
abbrev FileName := List UInt8

/-- Files and directories in memory. -/
inductive FileTree where
  | file (bytes : List UInt8)
  | directory (entries : List (FileName × FileTree))
  /-- A file that may not be read. -/
  | locked
  /-- A directory that may not be searched, whatever is in it. -/
  | closed
deriving Inhabited

namespace FileTree

/-- The most bytes of a path. -/
def pathLimit : Nat := 4095

/-- The most bytes of a name. -/
def nameLimit : Nat := 255

/-- The name of the directory above. -/
def above : Text := ".."

/-- A tree without anything in it. -/
def empty : FileTree := .directory []

/-- What a tree is, seen from outside. -/
def entry : FileTree → Entry
  | .file bytes => .file bytes
  | .directory _ | .closed => .directory
  | .locked => .unreadable

/-- The entries of a tree that is a directory, if they can be searched. -/
def search : FileTree → Except Entry (List (FileName × FileTree))
  | .file _ | .locked => .error .missing
  | .directory entries => .ok entries
  | .closed => .error (.refused .denied)

/-- What lies in a directory under a name. -/
def step (directory : FileTree) (name : Text) : Except Entry FileTree := do
  let entries ← directory.search
  match FilePath.bytes? name with
  | none => .error .missing
  | some bytes =>
    if bytes.length > nameLimit then .error (.refused .tooLong)
    else
      match entries.lookup bytes with
      | some next => .ok next
      | none => .error .missing

/-- Follows names from the first of the trees, the others being the
directories above it, the nearest first. Above the root lies the root. -/
def follow : List FileTree → List Text → Entry
  | [], _ => .missing
  | here :: _, [] => here.entry
  | here :: trail, name :: names =>
    if name == above then
      match here.search with
      | .ok _ => follow (if trail.isEmpty then [here] else trail) names
      | .error entry => entry
    else
      match here.step name with
      | .ok next => follow (next :: here :: trail) names
      | .error entry => entry

/-- What lies at a path, for someone working in a directory of the tree. -/
def look (root : FileTree) (workingDirectory : FilePath) : Files := fun text =>
  let path := FilePath.ofText text
  match FilePath.bytes? path.text with
  | none => .missing
  | some bytes =>
    if bytes.length > pathLimit then .refused .tooLong
    else follow [root] (workingDirectory.join path).names

/-- The entries of what is to be a directory. -/
def entriesOf (old : Option FileTree) : List (FileName × FileTree) :=
  match old with
  | some (.directory entries) => entries
  | _ => []

/-- A tree with what lies at a place changed, the directories on the way made
as needed. -/
def alter (change : Option FileTree → FileTree) : List FileName → Option FileTree → FileTree
  | [], old => change old
  | name :: names, old =>
    let entries := entriesOf old
    .directory ((name, alter change names (entries.lookup name)) ::
      entries.filter fun entry => entry.1 != name)

/-- Puts a file at a place. -/
def write (tree : FileTree) (names : List FileName) (bytes : List UInt8) : FileTree :=
  alter (fun _ => .file bytes) names (some tree)

/-- Puts a directory at a place, unless one is there. -/
def makeDirectory (tree : FileTree) (names : List FileName) : FileTree :=
  alter (fun old => .directory (entriesOf old)) names (some tree)

end FileTree

end Flowchart
