import Flowchart.Text.Blank
import Flowchart.Text.DecimalDigit
import Flowchart.Text.Quoted

/-!
# `Flowchart.Text.Numeral`: whole numbers in free form

A whole number in a text may stand between blanks, have one sign, take its
digits from any script and have a single underscore between two digits. Of
the blanks the four information separators do not count here.
-/

set_option autoImplicit false

namespace Flowchart.Text

/-- Why a text is no whole number. -/
inductive NumeralFault where
  /-- The text is no numeral. -/
  | malformed (text : Text)
  /-- The numeral has more digits than are taken. -/
  | tooManyDigits (count : Nat)
deriving DecidableEq, Repr

/-- The wording for a numeral with too many digits. -/
def tooManyDigitsMessage (count : Nat) : Text :=
  "Exceeds the limit (4300 digits) for integer string conversion: value has " ++ toString count ++
    " digits; use sys.set_int_max_str_digits() to increase the limit"

/-- The wording of a fault. The text is shown in quotes, up to 200 code
points. -/
def NumeralFault.message : NumeralFault → Text
  | .malformed text => "invalid literal for int() with base 10: " ++ (quoted text).take 200
  | .tooManyDigits count => tooManyDigitsMessage count

/-- The blanks that may stand around a numeral. -/
def isNumeralBlank (c : CodePoint) : Bool :=
  isBlank c && !(0x1c ≤ c.val && c.val ≤ 0x1f)

/-- The underscore that may part two digits. -/
def underscore : CodePoint := 0x5f

/-- Whether digits and underscores alternate as they may: an underscore
stands between two digits. -/
def wellSpaced : Text → Bool
  | [] => false
  | [c] => c != underscore
  | c :: d :: rest =>
    c != underscore && if d == underscore then wellSpaced rest else wellSpaced (d :: rest)

/-- A sign and what stands behind it. -/
def splitSign : Text → Bool × Text
  | [] => (false, [])
  | c :: rest =>
    if c == '-' then (true, rest) else if c == '+' then (false, rest) else (false, c :: rest)

/-- The whole number that a text stands for. -/
def readWhole (text : Text) : Except NumeralFault Int :=
  let (negative, body) := splitSign (text.dropWhile isNumeralBlank)
  let inNumeral (c : CodePoint) : Bool := isDigit c || c == underscore
  let numeral := body.takeWhile inNumeral
  let digits := numeral.filterMap digitValue?
  if !wellSpaced numeral then .error (.malformed text)
  else if digits.length > 4300 then .error (.tooManyDigits digits.length)
  else if !(body.dropWhile inNumeral).all isNumeralBlank then .error (.malformed text)
  else
    let size : Nat := digits.foldl (fun n digit => n * 10 + digit) 0
    .ok (if negative then -(size : Int) else size)

end Flowchart.Text
