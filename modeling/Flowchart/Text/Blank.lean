import Flowchart.Text.CodePoint

/-!
# `Flowchart.Text.Blank`: blank space

The code points that count as blank, and trimming them off both ends of a
text. The set is wider than the one of `Char.isWhitespace`: it holds every
character with the Unicode property `White_Space` and the four
information separators `U+001C` to `U+001F`.
-/

set_option autoImplicit false

namespace Flowchart.Text

/-- Whether a code point is blank. -/
def isBlank (c : CodePoint) : Bool :=
  let n := c.val
  (0x09 ≤ n && n ≤ 0x0d) || (0x1c ≤ n && n ≤ 0x20) || n == 0x85 || n == 0xa0 || n == 0x1680 ||
    (0x2000 ≤ n && n ≤ 0x200a) || n == 0x2028 || n == 0x2029 || n == 0x202f || n == 0x205f ||
    n == 0x3000

/-- A text without the blanks at its front. -/
def trimStart (text : Text) : Text :=
  text.dropWhile isBlank

/-- A text without the blanks at its end. -/
def trimEnd (text : Text) : Text :=
  (text.reverse.dropWhile isBlank).reverse

/-- A text without the blanks at both ends. -/
def trim (text : Text) : Text :=
  trimEnd (trimStart text)

end Flowchart.Text
