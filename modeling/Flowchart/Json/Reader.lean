import Flowchart.Json.Basic

/-!
# `Flowchart.Json.Reader`: reading JSON

The reader takes a text one code point at a time: reading is a fold of
`Reader.step`, so it ends on every text and the first fault ends it. A
reader knows the token it is inside of, what may come next, and the arrays
and objects that are still open.

The numerals `NaN`, `Infinity` and `-Infinity` are read too. Of members with
one name the last value counts, at the place of the first. A numeral reaches
as far as it can; one with too many digits is at fault whatever follows it.
Two numbers that make a surrogate pair are one character, and any other half
of a pair is a code point of its own.
-/

set_option autoImplicit false

namespace Flowchart.Json

open Number (Scalar nearestDecimal)

/-- Why a text has no value. -/
inductive ReadFault where
  /-- The text is not JSON. -/
  | malformed
  /-- A whole number has more digits than a reader takes. -/
  | tooManyDigits (count : Nat)
deriving DecidableEq, Repr

/-- The most digits that a whole number may have. -/
def digitLimit : Nat := 4300

/-! ### Words: numerals and names -/

/-- Whether a code point is one of the ten ASCII digits. -/
def isDigit (c : CodePoint) : Bool :=
  0x30 ≤ c.val && c.val ≤ 0x39

/-- Whether a code point is one of the ASCII letters. -/
def isLetter (c : CodePoint) : Bool :=
  (0x41 ≤ c.val && c.val ≤ 0x5a) || (0x61 ≤ c.val && c.val ≤ 0x7a)

/-- Whether a code point can stand in a numeral or a name. -/
def isWordChar (c : CodePoint) : Bool :=
  isLetter c || isDigit c || c == '-' || c == '+' || c == '.'

/-- The number that decimal digits stand for. -/
def digitsValue (digits : Text) : Nat :=
  digits.foldl (fun n c => n * 10 + (c.val - 0x30)) 0

/-- A sign at the front of a text: whether it is a minus, and what stands
behind it. -/
def splitMinus : Text → Bool × Text
  | [] => (false, [])
  | c :: rest => if c == '-' then (true, rest) else (false, c :: rest)

/-- The digits in front of the point, and what stands behind them. A zero
stands alone. -/
def splitWhole (text : Text) : Text × Text :=
  match text with
  | [] => ([], [])
  | c :: rest =>
    if c == '0' then ([c], rest) else (text.takeWhile isDigit, text.dropWhile isDigit)

/-- The digits of a fraction, if there is one, and what stands behind it. -/
def splitFraction (text : Text) : Option Text × Text :=
  match text with
  | [] => (none, [])
  | c :: rest =>
    let digits := rest.takeWhile isDigit
    if c == '.' && !digits.isEmpty then (some digits, rest.dropWhile isDigit) else (none, text)

/-- The value of an exponent, if there is one, and what stands behind it. -/
def splitExponent (text : Text) : Option Int × Text :=
  match text with
  | [] => (none, [])
  | c :: rest =>
    if c == 'e' || c == 'E' then
      let (negative, behind) := match rest with
        | [] => (false, [])
        | sign :: others =>
          if sign == '-' then (true, others)
          else if sign == '+' then (false, others)
          else (false, rest)
      let digits := behind.takeWhile isDigit
      -- A letter with no digits behind it is no exponent, and is left for what comes next.
      if digits.isEmpty then (none, text)
      else (some (Number.signed negative (digitsValue digits)), behind.dropWhile isDigit)
    else (none, text)

/-- The number that a word stands for: the numeral at its front has to be
all of it. -/
def numeralValue (word : Text) : Except ReadFault Json := do
  let (negative, unsigned) := splitMinus word
  let (whole, behindWhole) := splitWhole unsigned
  if whole.isEmpty then throw .malformed
  let (fraction, behindFraction) := splitFraction behindWhole
  let (exponent, rest) := splitExponent behindFraction
  let value ← match fraction, exponent with
    | none, none =>
      -- Only whole numbers are limited: with a point or an exponent any length is read.
      if whole.length > digitLimit then throw (.tooManyDigits whole.length)
      else pure (int (Number.signed negative (digitsValue whole)))
    | _, _ =>
      let places := fraction.getD []
      pure (double (nearestDecimal negative (digitsValue (whole ++ places))
        (exponent.getD 0 - places.length)))
  -- A numeral that is too long is reported before what is left behind it.
  if rest.isEmpty then return value else throw .malformed

/-- The values that have names. -/
def namedValues : List (Text × Json) :=
  [("null", .null), ("true", .bool true), ("false", .bool false), ("NaN", double (0.0 / 0.0)),
    ("Infinity", double (1.0 / 0.0)), ("-Infinity", double (-1.0 / 0.0))]

/-- The value that a word stands for. -/
def wordValue (word : Text) : Except ReadFault Json :=
  match namedValues.lookup word with
  | some value => .ok value
  | none => numeralValue word

/-! ### The reader -/

/-- The token that a reader is inside of. -/
inductive Token where
  | none
  /-- A word, in reverse. -/
  | word (read : Text)
  /-- A string in reverse, and the first half of a surrogate pair that was
  just read by its number. -/
  | string (read : Text) (half : Option CodePoint)
  /-- A string, just behind a backslash. -/
  | escape (read : Text) (half : Option CodePoint)
  /-- A string, inside the number of a code unit of which `missing` digits
  are still to come. -/
  | codeUnit (read : Text) (half : Option CodePoint) (value missing : Nat)

/-- An array or object that is still open, its contents in reverse. -/
inductive Frame where
  | array (items : List Json)
  | object (members : Members)
  /-- An object with the name of the member whose value is awaited. -/
  | member (members : Members) (name : Text)

/-- What may come next. -/
inductive Expected where
  | value
  | valueOrEnd
  | name
  | nameOrEnd
  | colon
  | commaOrEnd
  /-- Nothing: the text has said its value. -/
  | done (value : Json)

/-- A reader in the middle of a text. -/
structure Reader where
  token : Token
  expected : Expected
  frames : List Frame

namespace Reader

/-- The reader before the first code point. -/
def initial : Reader :=
  ⟨.none, .value, []⟩

/-- Whether a value may come next. -/
def expectsValue (r : Reader) : Bool :=
  match r.expected with
  | .value | .valueOrEnd => true
  | _ => false

/-- Takes a value that is complete, whatever was expected. -/
def put (r : Reader) (value : Json) : Except ReadFault Reader :=
  match r.frames with
  | [] => .ok ⟨.none, .done value, []⟩
  | .array items :: frames => .ok ⟨.none, .commaOrEnd, .array (value :: items) :: frames⟩
  | .member members name :: frames =>
    .ok ⟨.none, .commaOrEnd, .object (members.put name value) :: frames⟩
  | .object _ :: _ => .error .malformed

/-- Takes a complete word. -/
def takeWord (r : Reader) (word : Text) : Except ReadFault Reader :=
  if r.expectsValue then wordValue word >>= r.put else .error .malformed

/-- Takes a complete string, which is a value or the name of a member. -/
def takeString (r : Reader) (text : Text) : Except ReadFault Reader :=
  match r.expected, r.frames with
  | .value, _ | .valueOrEnd, _ => r.put (.string text)
  | .name, .object members :: frames | .nameOrEnd, .object members :: frames =>
    .ok ⟨.none, .colon, .member members text :: frames⟩
  | _, _ => .error .malformed

/-- Takes a punctuation mark. -/
def takeMark (r : Reader) (c : CodePoint) : Except ReadFault Reader :=
  match c.val, r.expected, r.frames with
  -- an opening bracket
  | 0x5b, .value, frames | 0x5b, .valueOrEnd, frames =>
    .ok ⟨.none, .valueOrEnd, .array [] :: frames⟩
  -- an opening brace
  | 0x7b, .value, frames | 0x7b, .valueOrEnd, frames =>
    .ok ⟨.none, .nameOrEnd, .object [] :: frames⟩
  -- a closing bracket
  | 0x5d, .valueOrEnd, .array items :: frames | 0x5d, .commaOrEnd, .array items :: frames =>
    put ⟨.none, .value, frames⟩ (.array items.reverse)
  -- a closing brace
  | 0x7d, .nameOrEnd, .object members :: frames | 0x7d, .commaOrEnd, .object members :: frames =>
    put ⟨.none, .value, frames⟩ (.object members)
  -- a colon
  | 0x3a, .colon, frames => .ok ⟨.none, .value, frames⟩
  -- a comma
  | 0x2c, .commaOrEnd, .array items :: frames => .ok ⟨.none, .value, .array items :: frames⟩
  | 0x2c, .commaOrEnd, .object members :: frames => .ok ⟨.none, .name, .object members :: frames⟩
  | _, _, _ => .error .malformed

/-- Takes a code point outside of any token. -/
def takeOutside (r : Reader) (c : CodePoint) : Except ReadFault Reader :=
  if c == ' ' || c == '\t' || c == '\n' || c == '\r' then .ok r
  else if c == '"' then .ok { r with token := .string [] none }
  else if isWordChar c then .ok { r with token := .word [c] }
  else r.takeMark c

/-- A string in reverse with a waiting half of a surrogate pair put into it. -/
def settle (read : Text) (half : Option CodePoint) : Text :=
  half.toList ++ read

/-- The code points that a backslash stands in front of, with what the two
stand for together. -/
def escapes : List (CodePoint × CodePoint) :=
  [('"', '"'), ('\\', '\\'), ('/', '/'), ('b', 0x08), ('f', 0x0c), ('n', '\n'), ('r', '\r'),
    ('t', '\t')]

/-- The value of a hexadecimal digit. -/
def hexValue? (c : CodePoint) : Option Nat :=
  let n := c.val
  if 0x30 ≤ n && n ≤ 0x39 then some (n - 0x30)
  else if 0x61 ≤ n && n ≤ 0x66 then some (n - 0x61 + 10)
  else if 0x41 ≤ n && n ≤ 0x46 then some (n - 0x41 + 10)
  else none

/-- The character of a surrogate pair. -/
def joinHalves (first second : CodePoint) : CodePoint :=
  CodePoint.ofNat (0x10000 + (first.val - 0xD800) * 0x400 + (second.val - 0xDC00))

/-- The token after a code unit that was given by its number: the second half
of a pair joins the first, and a first half waits. -/
def takeCodeUnit (read : Text) (half : Option CodePoint) (unit : CodePoint) : Token :=
  if unit.isFirstHalf then .string (settle read half) (some unit)
  else
    match half with
    | some first =>
      if unit.isSecondHalf then .string (joinHalves first unit :: read) none
      else .string (unit :: first :: read) none
    | none => .string (unit :: read) none

/-- Takes one code point. -/
def step (r : Reader) (c : CodePoint) : Except ReadFault Reader :=
  match r.token with
  | .none => r.takeOutside c
  | .word read =>
    if isWordChar c then .ok { r with token := .word (c :: read) }
    -- A word ends at the first other character, which is then taken on its own.
    else do
      let r ← r.takeWord read.reverse
      r.takeOutside c
  | .string read half =>
    if c == '"' then r.takeString (settle read half).reverse
    else if c == '\\' then .ok { r with token := .escape read half }
    else if c.val < 0x20 then .error .malformed
    else .ok { r with token := .string (c :: settle read half) none }
  | .escape read half =>
    if c == 'u' then .ok { r with token := .codeUnit read half 0 4 }
    else
      match escapes.lookup c with
      | some c => .ok { r with token := .string (c :: settle read half) none }
      | none => .error .malformed
  | .codeUnit read half value missing =>
    match hexValue? c with
    | some digit =>
      let value := value * 16 + digit
      .ok { r with
        token := if missing ≤ 1 then takeCodeUnit read half (CodePoint.ofNat value)
          else .codeUnit read half value (missing - 1) }
    | none => .error .malformed

/-- The value that was read when the text ends. -/
def finish (r : Reader) : Except ReadFault Json := do
  let r ← match r.token with
    | .none => .ok r
    | .word read => r.takeWord read.reverse
    | _ => .error .malformed
  match r.expected with
  | .done value => .ok value
  | _ => .error .malformed

end Reader

/-- The value that a text stands for. -/
def read (text : Text) : Except ReadFault Json :=
  text.foldlM Reader.step Reader.initial >>= Reader.finish

end Flowchart.Json
