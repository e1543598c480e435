import Flowchart.Text.Quoted

/-!
# `Flowchart.Text.Utf8`: reading UTF-8

Bytes are read in pieces. A piece is one character, or the longest run of
bytes that starts a character and cannot be finished. Reading leniently
puts one replacement character for each faulty piece; reading strictly
stops at the first one and says where it lies and what is wrong with it.

- `readLenient`, `readStrict`: the text of bytes, and the text if all is well.
-/

set_option autoImplicit false

namespace Flowchart.Text.Utf8

/-- Why a run of bytes is no character. -/
inductive Flaw where
  /-- The first byte starts no character. -/
  | badStart
  /-- A byte that ought to continue the character does not. -/
  | badContinuation
  /-- The bytes end before the character does. -/
  | unexpectedEnd
deriving DecidableEq, Repr

/-- A piece of a byte sequence, with the number of bytes it takes. -/
inductive Piece where
  | char (c : CodePoint) (width : Nat)
  | flawed (flaw : Flaw) (first : UInt8) (width : Nat)
deriving DecidableEq, Repr

/-- How many bytes a piece takes. -/
def Piece.width : Piece → Nat
  | .char _ width => width
  | .flawed _ _ width => width

/-- What a first byte announces: the payload bits it carries, how many bytes
follow, and the range that the next byte has to lie in. The ranges shut out
overlong forms, surrogates and values above `U+10FFFF`. -/
def lead (b : UInt8) : Option (Nat × Nat × UInt8 × UInt8) :=
  if b < 0x80 then some (b.toNat, 0, 0x80, 0xBF)
  else if b < 0xC2 then none
  else if b < 0xE0 then some (b.toNat - 0xC0, 1, 0x80, 0xBF)
  else if b == 0xE0 then some (0, 2, 0xA0, 0xBF)
  else if b == 0xED then some (0xD, 2, 0x80, 0x9F)
  else if b < 0xF0 then some (b.toNat - 0xE0, 2, 0x80, 0xBF)
  else if b == 0xF0 then some (0, 3, 0x90, 0xBF)
  else if b < 0xF4 then some (b.toNat - 0xF0, 3, 0x80, 0xBF)
  else if b == 0xF4 then some (4, 3, 0x80, 0x8F)
  else none

/-- Reads the `count` bytes that continue a character of which `taken` bytes
with the payload `value` are read. -/
def continuation (first : UInt8) (value taken : Nat) :
    (count : Nat) → (low high : UInt8) → List UInt8 → Piece
  | 0, _, _, _ => .char (CodePoint.ofNat value) taken
  | _ + 1, _, _, [] => .flawed .unexpectedEnd first taken
  | count + 1, low, high, b :: rest =>
    if low ≤ b && b ≤ high then
      continuation first (value * 64 + (b.toNat - 0x80)) (taken + 1) count 0x80 0xBF rest
    else .flawed .badContinuation first taken

/-- The piece at the front of a byte sequence. -/
def piece (first : UInt8) (rest : List UInt8) : Piece :=
  match lead first with
  | some (value, count, low, high) => continuation first value 1 count low high rest
  | none => .flawed .badStart first 1

/-- A byte sequence in pieces. -/
def pieces : List UInt8 → List Piece
  | [] => []
  | first :: rest =>
    let p := piece first rest
    p :: pieces (rest.drop (p.width - 1))
termination_by bytes => bytes.length
decreasing_by
  simp only [List.length_drop, List.length_cons]
  omega

/-- The code point that a piece shows in a lenient reading. -/
def Piece.shown : Piece → CodePoint
  | .char c _ => c
  | .flawed _ _ _ => CodePoint.replacement

/-- The text of a byte sequence, with a replacement character for each
piece that is none. -/
def readLenient (bytes : List UInt8) : Text :=
  (pieces bytes).map Piece.shown

/-- The first flaw of a byte sequence and where it lies. -/
structure Fault where
  flaw : Flaw
  position : Nat
  first : UInt8
  width : Nat
deriving DecidableEq, Repr

/-- The wording of a flaw. -/
def Flaw.reason : Flaw → String
  | .badStart => "invalid start byte"
  | .badContinuation => "invalid continuation byte"
  | .unexpectedEnd => "unexpected end of data"

/-- The bytes that a fault is about, in words. -/
def Fault.place (fault : Fault) : Text :=
  if fault.width == 1 then
    "byte 0x" ++ hexDigits 2 fault.first.toNat ++ " in position " ++
      toString fault.position
  else
    "bytes in position " ++ toString fault.position ++ "-" ++
      toString (fault.position + fault.width - 1)

/-- The wording of a fault. -/
def Fault.message (fault : Fault) : Text :=
  "'utf-8' codec can't decode " ++ fault.place ++ ": " ++ fault.flaw.reason

/-- The characters of a sequence of pieces that starts at a byte position,
or the first flaw among them. -/
def readPieces (position : Nat) : List Piece → Except Fault Text
  | [] => .ok []
  | .char c width :: rest => (readPieces (position + width) rest).map (c :: ·)
  | .flawed flaw first width :: _ => .error ⟨flaw, position, first, width⟩

/-- The text of a byte sequence, if all of it is text. -/
def readStrict (bytes : List UInt8) : Except Fault Text :=
  readPieces 0 (pieces bytes)

end Flowchart.Text.Utf8
