import Flowchart.Json.Comparison
import Flowchart.Json.Reader
import Flowchart.Json.Writer

/-!
# `Flowchart.Json.Key`: what values are told apart by

A key is what a table knows of a value. Equal numbers have one key, in
whatever form they were written, and truth values have the keys of one and
zero. Lists and objects cannot be looked up in tables; their keys only tell
them apart by how they are written.

Keys have an order, so that sets of them can be kept in ascending lists.
Texts come before all other keys.

- `key_string`: a text is a key of its own;
- `lt_irrefl`, `lt_trans`, `eq_of_not_lt`: the laws of the order.
-/

set_option autoImplicit false

namespace Flowchart

open Number (Scalar)

namespace Json

/-- What a value is told apart by. -/
inductive Key where
  | text (text : Text)
  /-- Whatever is no text, in its plainest form. -/
  | written (form : Text)
deriving DecidableEq, Repr

/-- The plainest form of a value that is no text. -/
def plainForm (value : Json) : Json :=
  match value.scalar? with
  | some x => .number ((x.whole?.map Scalar.int).getD x)
  | none => value

/-- The key of a value. -/
def key : Json → Key
  | .string text => .text text
  | value => .written (value.plainForm.render .compact)

/-- A text is a key of its own. -/
@[simp]
theorem key_string (text : Text) : key (.string text) = .text text := rfl

/-- Looks a value up, if that can be done. -/
def lookUp (value : Json) : Except Fault Unit :=
  if value.isKey then .ok () else .error (.notKey value.kind)

namespace Key

/-- The value that a key stands for. -/
def toJson : Key → Json
  | .text name => .string name
  | .written form => (read form).toOption.getD .null

/-- A key as a text that orders it among keys. -/
def rank : Key → Text
  | .text name => 0 :: name
  | .written form => 1 :: form

instance : LT Key := ⟨fun a b => a.rank < b.rank⟩

instance (a b : Key) : Decidable (a < b) :=
  inferInstanceAs (Decidable (a.rank < b.rank))

/-- Keys are told by their ranks. -/
theorem rank_inj {a b : Key} (h : a.rank = b.rank) : a = b := by
  cases a <;> cases b <;> simp_all [rank]

/-- No key is less than itself. -/
theorem lt_irrefl (a : Key) : ¬a < a :=
  List.lt_irrefl a.rank

/-- The order of keys is transitive. -/
theorem lt_trans {a b c : Key} (h₁ : a < b) (h₂ : b < c) : a < c :=
  List.lt_trans (α := CodePoint) h₁ h₂

/-- Of two keys, one at most is less than the other. -/
theorem lt_asymm {a b : Key} (h : a < b) : ¬b < a :=
  List.lt_asymm (α := CodePoint) h

/-- Keys neither of which is less are the same. -/
theorem eq_of_not_lt {a b : Key} (h₁ : ¬a < b) (h₂ : ¬b < a) : a = b :=
  rank_inj (List.le_antisymm (List.not_lt.1 h₂) (List.not_lt.1 h₁))

end Key

end Json

end Flowchart
