/-!
# `Flowchart.Text.CodePoint`: texts as rows of code points

A text is a row of Unicode code points. Nearly all of them are characters,
but JSON can also spell one half of a surrogate pair without the other, and
such a half is a member of the text like any other. So a text is a list of
code points here, and a string is one way to write a text down.

- `ofString_inj`: different strings are different texts.
-/

set_option autoImplicit false

namespace Flowchart

/-- A Unicode code point: a character, or half of a surrogate pair. -/
abbrev CodePoint := Fin 0x110000

/-- A text. -/
abbrev Text := List CodePoint

/-- There are code points, so that numerals can stand for them. -/
instance instNeZeroCodePoint : @NeZero Nat Zero.ofOfNat0 0x110000 := ⟨by decide⟩

/-- Texts that are found equal are the same. -/
instance instLawfulBEqText : LawfulBEq Text := inferInstance

namespace CodePoint

/-- Characters are code points. -/
theorem toNat_lt (c : Char) : c.toNat < 0x110000 := by
  rcases c.valid with h | h
  · exact Nat.lt_trans h (by decide)
  · exact h.2

/-- The code point of a character. -/
def ofChar (c : Char) : CodePoint :=
  ⟨c.toNat, toNat_lt c⟩

instance : Coe Char CodePoint := ⟨ofChar⟩

/-- The code point with a number. A number that is none counts from zero
again. -/
def ofNat (n : Nat) : CodePoint :=
  Fin.ofNat 0x110000 n

/-- Whether a code point is the first half of a surrogate pair. -/
def isFirstHalf (c : CodePoint) : Bool :=
  0xD800 ≤ c.val && c.val < 0xDC00

/-- Whether a code point is the second half of a surrogate pair. -/
def isSecondHalf (c : CodePoint) : Bool :=
  0xDC00 ≤ c.val && c.val < 0xE000

/-- Whether a code point is half of a surrogate pair. -/
def isSurrogate (c : CodePoint) : Bool :=
  0xD800 ≤ c.val && c.val < 0xE000

/-- The code point that stands for what cannot be read. -/
def replacement : CodePoint := 0xFFFD

/-- The character that shows a code point. No half of a surrogate pair has a
character of its own. -/
def shown (c : CodePoint) : Char :=
  if c.isSurrogate then Char.ofNat replacement.val else Char.ofNat c.val

/-- Characters are told by their code points. -/
theorem ofChar_inj {c d : Char} : ofChar c = ofChar d ↔ c = d := by
  refine ⟨fun h => ?_, fun h => h ▸ rfl⟩
  have hval := congrArg Fin.val h
  exact Char.ext (UInt32.toNat_inj.1 hval)

end CodePoint

namespace Text

/-- The text of a string. -/
def ofString (s : String) : Text :=
  s.toList.map CodePoint.ofChar

instance : Coe String Text := ⟨ofString⟩

/-- A string that shows a text. -/
def shown (text : Text) : String :=
  String.ofList (text.map CodePoint.shown)

/-- The text of a row of characters. -/
def ofChars (cs : List Char) : Text :=
  cs.map CodePoint.ofChar

/-- The texts of a list one after the other, with another text between each
two of them. -/
def joined (separator : Text) (texts : List Text) : Text :=
  List.intercalate separator texts

/-- How two texts compare: at the first code point in which they differ, or
by their lengths. -/
def order (text other : Text) : Ordering :=
  if text < other then .lt else if other < text then .gt else .eq

/-- Whether a text comes before another one or is the same. -/
def le (text other : Text) : Bool :=
  (order text other).isLE

/-- Strings are told by their code points. -/
theorem ofString_inj {s t : String} : ofString s = ofString t ↔ s = t := by
  refine ⟨fun h => ?_, fun h => h ▸ rfl⟩
  exact String.toList_inj.1 ((List.map_inj_right fun _ _ h => CodePoint.ofChar_inj.1 h).1 h)

end Text

end Flowchart
