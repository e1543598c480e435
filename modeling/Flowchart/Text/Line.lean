import Flowchart.Text.Blank
import Flowchart.Text.Slice

/-!
# `Flowchart.Text.Line`: one line that stands for a text

A label shows the first line of a text, trimmed. A line longer than the
limit keeps two code points less than the limit allows and ends in `..`
instead; where fewer than two are allowed, the cut counts from the end of
the line.
-/

set_option autoImplicit false

namespace Flowchart.Text

/-- What stands before the first line break. -/
def firstLine (text : Text) : Text :=
  text.takeWhile (· != '\n')

/-- The trimmed first line of a text. -/
def headline (text : Text) : Text :=
  trim (firstLine text)

/-- A line cut two code points short of the limit, with the mark of a cut. -/
def cutLine (limit : Int) (line : Text) : Text :=
  slice line 0 (limit - 2) ++ ".."

/-- The headline of a text, cut if it is longer than the limit. -/
def shorten (limit : Int) (text : Text) : Text :=
  let line := headline text
  if line.length > limit then cutLine limit line else line

/-- Universal line ends: a carriage return and a line feed, or a carriage
return alone, become a line feed. -/
def unifyLineEnds : Text → Text
  | 0x0d :: 0x0a :: rest => '\n' :: unifyLineEnds rest
  | 0x0d :: rest => '\n' :: unifyLineEnds rest
  | c :: rest => c :: unifyLineEnds rest
  | [] => []

end Flowchart.Text
