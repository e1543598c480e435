import Flowchart.Text.Quoted

/-!
# `Flowchart.Text.Encoded`: writing UTF-8

A code point becomes one to four bytes. Half of a surrogate pair has no
bytes of its own, so a text with one cannot be written; the fault is the
first run of such halves.

- `encode_eq_ok`: a text without such halves can always be written.
-/

set_option autoImplicit false

namespace Flowchart.Text.Encoded

/-- The bytes of a code point. -/
def bytesOf (c : CodePoint) : List UInt8 :=
  let n := c.val
  let continuation (shift : Nat) : UInt8 := UInt8.ofNat (0x80 + n / shift % 64)
  if n < 0x80 then [UInt8.ofNat n]
  else if n < 0x800 then [UInt8.ofNat (0xC0 + n / 64), continuation 1]
  else if n < 0x10000 then [UInt8.ofNat (0xE0 + n / 4096), continuation 64, continuation 1]
  else [UInt8.ofNat (0xF0 + n / 262144), continuation 4096, continuation 64, continuation 1]

/-- A run of halves of surrogate pairs: the first of them, where it stands,
and how many there are. -/
structure Fault where
  first : CodePoint
  position : Nat
  count : Nat
deriving DecidableEq, Repr

/-- The wording of a fault. -/
def Fault.message (fault : Fault) : Text :=
  let place : Text :=
    if fault.count == 1 then
      "character '" ++ escapedNumber fault.first ++ "' in position " ++ toString fault.position
    else
      "characters in position " ++ toString fault.position ++ "-" ++
        toString (fault.position + fault.count - 1)
  "'utf-8' codec can't encode " ++ place ++ ": surrogates not allowed"

/-- The first run of halves of surrogate pairs in a text. -/
def fault? (text : Text) : Option Fault :=
  match text.dropWhile (!·.isSurrogate) with
  | [] => none
  | first :: rest =>
    some {
      first
      position := (text.takeWhile (!·.isSurrogate)).length
      count := (rest.takeWhile (·.isSurrogate)).length + 1 }

/-- The bytes of a text. -/
def encode (text : Text) : Except Fault (List UInt8) :=
  match fault? text with
  | none => .ok (text.flatMap bytesOf)
  | some fault => .error fault

/-- A text without surrogates can be encoded. -/
theorem fault?_eq_none {text : Text} (h : ∀ c ∈ text, c.isSurrogate = false) :
    fault? text = none := by
  have hdrop : text.dropWhile (!·.isSurrogate) = [] := by
    induction text with
    | nil => rfl
    | cons c rest ih =>
      simp [h c List.mem_cons_self, ih fun d hd => h d (List.mem_cons_of_mem c hd)]
  rw [fault?, hdrop]

/-- A text without halves of surrogate pairs can be written. -/
theorem encode_eq_ok {text : Text} (h : ∀ c ∈ text, c.isSurrogate = false) :
    encode text = .ok (text.flatMap bytesOf) := by
  rw [encode, fault?_eq_none h]

end Flowchart.Text.Encoded
