import Flowchart.Files.Path

/-!
# `Flowchart.Language.Basic`: programming languages

The languages that graphs are drawn for, and the suffixes of files that tell
them. Letter case does not matter in a suffix. A file whose suffix tells
nothing counts as one of the default language.
-/

set_option autoImplicit false

namespace Flowchart

/-- A programming language. -/
inductive Language where
  | c
  | cpp
  | go
  | java
  | javascript
  | python
  | ruby
  | rust
  | tsx
  | typescript
deriving DecidableEq, Repr

namespace Language

/-- The languages, in the order of their names. -/
def all : List Language :=
  [.c, .cpp, .go, .java, .javascript, .python, .ruby, .rust, .tsx, .typescript]

/-- The name of a language. -/
def name : Language → String
  | .c => "c"
  | .cpp => "cpp"
  | .go => "go"
  | .java => "java"
  | .javascript => "javascript"
  | .python => "python"
  | .ruby => "ruby"
  | .rust => "rust"
  | .tsx => "tsx"
  | .typescript => "typescript"

/-- The language with a name. -/
def ofName? (name : Text) : Option Language :=
  all.find? fun language => Text.ofString language.name == name

/-- A language is found under its name. -/
theorem ofName?_name (language : Language) : ofName? language.name = some language := by
  have hname : ∀ other : Language,
      (Text.ofString other.name == Text.ofString language.name) =
        decide (other.name = language.name) := by
    intro other
    by_cases h : other.name = language.name <;> simp [h, Text.ofString_inj]
  simp only [ofName?, hname]
  cases language <;> decide

/-- The suffixes that tell a language. -/
def suffixes : List (Text × Language) :=
  [(".py", .python), (".pyi", .python),
    (".ts", .typescript), (".tsx", .tsx), (".js", .javascript), (".jsx", .javascript),
    (".mjs", .javascript), (".cjs", .javascript),
    (".go", .go), (".rs", .rust), (".c", .c), (".h", .c), (".cpp", .cpp), (".cc", .cpp),
    (".cxx", .cpp), (".hpp", .cpp), (".hh", .cpp),
    (".java", .java), (".rb", .ruby)]

/-- A code point with a capital ASCII letter made small. -/
def lowered (c : CodePoint) : CodePoint :=
  if 0x41 ≤ c.val && c.val ≤ 0x5a then CodePoint.ofNat (c.val + 0x20) else c

/-- The language that the suffix of a path tells. -/
def ofPath? (path : Text) : Option Language :=
  suffixes.lookup ((FilePath.ofText path).suffix.map lowered)

/-- The language of files that tell none. -/
def default : Language := .python

/-- The language of the file at a path. -/
def ofPath (path : Text) : Language :=
  (ofPath? path).getD default

end Language

end Flowchart
