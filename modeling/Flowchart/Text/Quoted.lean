import Flowchart.Text.Unprintable

/-!
# `Flowchart.Text.Quoted`: texts inside messages

A message shows a text between quotes, on one line and without unprintable
code points. Apostrophes are the usual quotes; a text that holds an
apostrophe and no double quote stands between double quotes instead.
-/

set_option autoImplicit false

namespace Flowchart.Text

/-- The apostrophe. -/
def apostrophe : CodePoint := 0x27

/-- The double quote. -/
def doubleQuote : CodePoint := 0x22

/-- A number in lower-case hexadecimal digits, at least `width` of them. -/
def hexDigits (width n : Nat) : Text :=
  let digits := Nat.toDigits 16 n
  ofChars (List.replicate (width - digits.length) '0' ++ digits)

/-- A code point by its number, in as few digits as there is a form for. -/
def escapedNumber (c : CodePoint) : Text :=
  if c.val < 0x100 then "\\x" ++ hexDigits 2 c.val
  else if c.val < 0x10000 then "\\u" ++ hexDigits 4 c.val
  else "\\U" ++ hexDigits 8 c.val

/-- How one code point of a quoted text is written. -/
def quoteCodePoint (quote c : CodePoint) : Text :=
  if c == quote || c == '\\' then ['\\', c]
  else if c == '\n' then "\\n"
  else if c == '\r' then "\\r"
  else if c == '\t' then "\\t"
  else if isUnprintable c then escapedNumber c
  else [c]

/-- The quote that a text is put between. -/
def quoteFor (text : Text) : CodePoint :=
  if text.contains apostrophe && !text.contains doubleQuote then doubleQuote else apostrophe

/-- A text as messages show it. -/
def quoted (text : Text) : Text :=
  let quote := quoteFor text
  quote :: text.flatMap (quoteCodePoint quote) ++ [quote]

end Flowchart.Text
