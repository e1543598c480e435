import Flowchart.Fault
import Flowchart.Json.Basic

/-!
# `Flowchart.Metrics.Cells`: the width of characters in cells

A monospace font gives most characters one cell. East Asian ideographs,
kana, Hangul, full-width forms and emoji take two; combining and zero-width
characters take none, and neither do control characters other than the tab.
-/

set_option autoImplicit false

namespace Flowchart.Metrics

/-- The code points of characters that take no cell, beyond ASCII. -/
def zeroWidthRuns : List (Nat × Nat) :=
  [(0x0300, 0x036F), (0x200B, 0x200F), (0xFEFF, 0xFEFF)]

/-- The code points of characters that take two cells. -/
def doubleWidthRuns : List (Nat × Nat) :=
  [(0x4E00, 0x9FFF), (0x3400, 0x4DBF), (0x20000, 0x2B81F), (0xF900, 0xFAFF), (0x3000, 0x30FF),
    (0xAC00, 0xD7AF), (0xFF00, 0xFF60), (0x1F300, 0x1F9FF)]

/-- Whether a code point lies in one of the runs. -/
def inRuns (runs : List (Nat × Nat)) (n : Nat) : Bool :=
  runs.any fun run => run.1 ≤ n && n ≤ run.2

/-- How many cells a code point takes. -/
def cells (c : CodePoint) : Nat :=
  let n := c.val
  if n < 128 then if n ≥ 32 || c == '\t' then 1 else 0
  else if inRuns zeroWidthRuns n then 0
  else if inRuns doubleWidthRuns n then 2
  else 1

/-- How many cells a value takes that stands for a character: a text of one
code point. -/
def cellsOf : Json → Except Fault Nat
  | .string [c] => .ok (cells c)
  | .string text => .error (.notOneCharacter text.length)
  | value => .error (.notCharacter value.kind)

end Flowchart.Metrics
