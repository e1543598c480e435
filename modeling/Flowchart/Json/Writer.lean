import Flowchart.Json.Basic
import Flowchart.Number.Written
import Flowchart.Text.Quoted

/-!
# `Flowchart.Json.Writer`: writing JSON

A value is written on one line without blanks, or with one item a line and
two blanks for each level. Empty arrays and objects stay on their line.
Code points outside ASCII are written as they are or by their UTF-16 code
units.
-/

set_option autoImplicit false

namespace Flowchart.Json

open Number (Scalar Binary64 signedNumeral)

/-- How values are written. -/
structure WriteStyle where
  /-- Whether each item has a line of its own. -/
  lines : Bool
  /-- Whether code points outside ASCII are written by number. -/
  ascii : Bool

/-- All on one line and in ASCII. -/
def WriteStyle.compact : WriteStyle := ⟨false, true⟩

/-- What has been written so far. -/
abbrev Output := Array CodePoint

/-- A text written behind what has been written so far. -/
def Output.add (out : Output) (text : Text) : Output :=
  text.foldl Array.push out

/-- The numeral of a number. -/
def writeNumber : Scalar → String
  | .int n => toString n
  | .double x =>
    match Binary64.ofFloat x with
    | .nan => "NaN"
    | .infinite negative => if negative then "-Infinity" else "Infinity"
    | .finite negative mantissa exponent => signedNumeral negative mantissa exponent

/-- A UTF-16 code unit by its number. -/
def writeUnit (n : Nat) : Text :=
  "\\u" ++ Text.hexDigits 4 n

/-- The code points that have a short form of their own behind a backslash. -/
def shortForms : List (CodePoint × Text) :=
  [('"', "\\\""), ('\\', "\\\\"), ('\n', "\\n"), ('\r', "\\r"), ('\t', "\\t"), (0x08, "\\b"),
    (0x0c, "\\f")]

/-- One code point of a string. -/
def writeCodePoint (ascii : Bool) (c : CodePoint) : Text :=
  let n := c.val
  match shortForms.lookup c with
  | some short => short
  | none =>
    if n < 0x20 then writeUnit n
    else if !ascii || n < 0x7f then [c]
    else if n < 0x10000 then writeUnit n
    else writeUnit (0xD800 + (n - 0x10000) / 0x400) ++ writeUnit (0xDC00 + (n - 0x10000) % 0x400)

/-- A string between quotes, written behind `out`. -/
def writeString (ascii : Bool) (out : Output) (text : Text) : Output :=
  (text.foldl (fun out c => Output.add out (writeCodePoint ascii c)) (out.push '"')).push '"'

/-- The start of a line at a level, if items have lines of their own. -/
def startLine (style : WriteStyle) (level : Nat) (out : Output) : Output :=
  if style.lines then Output.add (out.push '\n') (List.replicate (2 * level) ' ') else out

mutual

/-- A value written behind `out`, at a level of nesting. -/
def write (style : WriteStyle) (level : Nat) (out : Output) : Json → Output
  | .null => out.add "null"
  | .bool true => out.add "true"
  | .bool false => out.add "false"
  | .number value => out.add (writeNumber value)
  | .string text => writeString style.ascii out text
  | .array [] => out.add "[]"
  | .array (item :: items) =>
    let out := write style (level + 1) (startLine style (level + 1) (out.push '[')) item
    (startLine style level (writeItems style (level + 1) out items)).push ']'
  | .object [] => (out.push '\x7b').push '\x7d'
  | .object (member :: members) =>
    let out := writeMember style (level + 1) (startLine style (level + 1) (out.push '\x7b')) member
    (startLine style level (writeMembers style (level + 1) out members)).push '\x7d'

/-- The items behind the first one. -/
def writeItems (style : WriteStyle) (level : Nat) (out : Output) : List Json → Output
  | [] => out
  | item :: items =>
    let out := write style level (startLine style level (out.push ',')) item
    writeItems style level out items

/-- A member: its name, a colon and its value. -/
def writeMember (style : WriteStyle) (level : Nat) (out : Output) : Text × Json → Output
  | (name, value) =>
    let out := (writeString style.ascii out name).push ':'
    write style level (if style.lines then out.push ' ' else out) value

/-- The members behind the first one. -/
def writeMembers (style : WriteStyle) (level : Nat) (out : Output) : Members → Output
  | [] => out
  | member :: members =>
    let out := writeMember style level (startLine style level (out.push ',')) member
    writeMembers style level out members

end

/-- A value as a text. -/
def render (style : WriteStyle) (value : Json) : Text :=
  (write style 0 #[] value).toList

end Flowchart.Json
