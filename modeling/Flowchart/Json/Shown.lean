import Flowchart.Json.Basic
import Flowchart.Number.Written
import Flowchart.Text.Quoted

/-!
# `Flowchart.Json.Shown`: JSON values inside messages

A message shows a text as it is. Any other value is shown on one line: the
constants by their names, numbers by their numerals, lists in brackets,
objects in braces, and the texts inside of either between quotes.
-/

set_option autoImplicit false

namespace Flowchart.Json

open Number (Scalar Binary64 signedNumeral)

/-- A number as messages show it. -/
def shownNumber : Scalar → Text
  | .int n => toString n
  | .double x =>
    match Binary64.ofFloat x with
    | .nan => "nan"
    | .infinite negative => if negative then "-inf" else "inf"
    | .finite negative mantissa exponent => signedNumeral negative mantissa exponent

mutual

/-- A value as messages show it inside of another one. -/
def quoted : Json → Text
  | .null => "None"
  | .bool true => "True"
  | .bool false => "False"
  | .number value => shownNumber value
  | .string text => text.quoted
  | .array items => "[" ++ Text.joined ", " (quotedItems items) ++ "]"
  | .object members => "\x7b" ++ Text.joined ", " (quotedMembers members) ++ "\x7d"

/-- The items of a list as messages show them. -/
def quotedItems : List Json → List Text
  | [] => []
  | item :: items => quoted item :: quotedItems items

/-- The members of an object as messages show them. -/
def quotedMembers : List (Text × Json) → List Text
  | [] => []
  | (name, value) :: members => (name.quoted ++ ": " ++ quoted value) :: quotedMembers members

end

/-- A value as messages show it. -/
def shown : Json → Text
  | .string text => text
  | value => value.quoted

end Flowchart.Json
