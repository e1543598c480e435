import Flowchart.Language.Basic
import Flowchart.Notice
import Flowchart.Syntax.Parsed

/-!
# `Flowchart.Language.Parsing`: from source to tree

Sources are parsed by a library with one grammar for each language. Grammars
come in packages of their own, and each may be missing, as may the library.
A parser makes the best of a faulty source; that it did is worth a notice.
-/

set_option autoImplicit false

namespace Flowchart

/-- A grammar: its package, and its entry point there. -/
structure Grammar where
  package : String
  entryPoint : String
deriving DecidableEq, Repr

/-- The full name of a grammar. -/
def Grammar.name (grammar : Grammar) : String :=
  grammar.package ++ "." ++ grammar.entryPoint

/-- The grammar of a language. -/
def Language.grammar : Language → Grammar
  | .c => ⟨"tree_sitter_c", "language"⟩
  | .cpp => ⟨"tree_sitter_cpp", "language"⟩
  | .go => ⟨"tree_sitter_go", "language"⟩
  | .java => ⟨"tree_sitter_java", "language"⟩
  | .javascript => ⟨"tree_sitter_javascript", "language"⟩
  | .python => ⟨"tree_sitter_python", "language"⟩
  | .ruby => ⟨"tree_sitter_ruby", "language"⟩
  | .rust => ⟨"tree_sitter_rust", "language"⟩
  | .tsx => ⟨"tree_sitter_typescript", "language_tsx"⟩
  | .typescript => ⟨"tree_sitter_typescript", "language_typescript"⟩

namespace Parsing

/-- Why a source cannot be parsed. -/
inductive Fault where
  | unsupported (language : Text)
  | libraryMissing
  | packageMissing (package : String)
  /-- Half of a surrogate pair cannot be handed to a parser. -/
  | notEncodable (fault : Text.Encoded.Fault)
deriving DecidableEq, Repr

/-- The name under which a package is installed. -/
def installName (package : String) : String :=
  package.map fun c => if c == '_' then '-' else c

/-- The wording of a fault. -/
def Fault.message : Fault → Text
  | .unsupported language => "Unsupported language: " ++ language
  | .libraryMissing => "tree-sitter not available - install with: pip install tree-sitter"
  | .packageMissing package =>
    package ++ " not available - install with: pip install " ++ installName package
  | .notEncodable fault => fault.message

/-- What is there to parse with. -/
structure Installation where
  library : Bool
  packages : List Text

/-- What a parser makes of a source. -/
structure Reading where
  tree : ParsedTree
  /-- Whether the source is faulty. -/
  flawed : Bool

/-- A parser: what is installed, and what it makes of a source. -/
structure Parser where
  installed : Installation
  read : Grammar → Text → Reading

/-- The language with a name. -/
def languageNamed (name : Text) : Except Fault Language :=
  match Language.ofName? name with
  | some language => .ok language
  | none => .error (.unsupported name)

/-- The grammar of a language, if it is installed. -/
def grammarOf (installed : Installation) (language : Language) : Except Fault Grammar :=
  let grammar := language.grammar
  if !installed.library then .error .libraryMissing
  else if installed.packages.contains (grammar.package : Text) then .ok grammar
  else .error (.packageMissing grammar.package)

/-- Whether sources in the language with a name can be parsed. -/
def isAvailable (installed : Installation) (name : Text) : Bool :=
  match Language.ofName? name with
  | some language => (grammarOf installed language).toOption.isSome
  | none => false

/-- The notice that a reading leaves. -/
def Reading.notices (reading : Reading) (language : Language) : List Notice :=
  if reading.flawed then [.syntaxErrors language.name] else []

/-- The tree of a source read with the grammar of a language. -/
def parse (parser : Parser) (language : Language) (source : Text) :
    Except Fault (Grammar × SyntaxTree × List Notice) := do
  let grammar ← grammarOf parser.installed language
  let _ ← (Text.Encoded.encode source).mapError .notEncodable
  let reading := parser.read grammar source
  return (grammar, reading.tree.toSyntax, reading.notices language)

end Parsing

end Flowchart
