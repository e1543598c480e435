import Flowchart.Kinds.KindSet

/-!
# `Flowchart.Kinds.Table`: what the kinds of a grammar mean

Grammars name the same construct differently, so every role that a node can
play is a set of kinds. Five roles are categories: nodes of a category make
blocks of their own. A kind in several categories belongs to the first one,
in the order branch, loop, match, terminator, function.

- `ext_kinds`: tables with the same kinds for each role are equal;
- `category?`: the category of a kind;
- `extend`: tables with more kinds; every function is a container as well;
- `default`: the tables for the grammars that are known.
-/

set_option autoImplicit false

namespace Flowchart

/-- The roles that a node can play. -/
inductive Role where
  | branches
  | loops
  | choices
  | terminators
  | functions
  /-- Rows of statements. -/
  | containers
  | conditions
  | bodies
  | alternatives
  | arms
  /-- Wrappers that arms may be inside of. -/
  | armContainers
  | names
  /-- Names that count where there is no other. -/
  | fallbackNames
  | comments
deriving DecidableEq, Repr

namespace Role

/-- The roles in the order in which tables list them. -/
def all : List Role :=
  [.branches, .loops, .choices, .terminators, .functions, .containers, .conditions, .bodies,
    .alternatives, .arms, .armContainers, .names, .fallbackNames, .comments]

/-- The name that tables have for a role. -/
def name : Role → String
  | .branches => "if_types"
  | .loops => "loop_types"
  | .choices => "match_types"
  | .terminators => "terminator_types"
  | .functions => "function_types"
  | .containers => "container_types"
  | .conditions => "condition_types"
  | .bodies => "body_types"
  | .alternatives => "else_types"
  | .arms => "arm_types"
  | .armContainers => "arm_container_types"
  | .names => "name_types"
  | .fallbackNames => "fallback_name_types"
  | .comments => "comment_types"

/-- The role with a name. -/
def ofName? (name : Text) : Option Role :=
  all.find? fun role => Text.ofString role.name == name

end Role

/-- The roles of nodes that make blocks of their own. -/
inductive Category where
  | branch
  | loop
  | choice
  | terminator
  | function
deriving DecidableEq, Repr

namespace Category

/-- The categories, the one that wins first. -/
def all : List Category :=
  [.branch, .loop, .choice, .terminator, .function]

/-- The role of a category. -/
def role : Category → Role
  | .branch => .branches
  | .loop => .loops
  | .choice => .choices
  | .terminator => .terminators
  | .function => .functions

/-- The name of a category. -/
def name : Category → String
  | .branch => "branch"
  | .loop => "loop"
  | .choice => "match"
  | .terminator => "terminator"
  | .function => "function"

end Category

/-- The kinds of each role. -/
structure KindTable where
  branches : KindSet
  loops : KindSet
  choices : KindSet
  terminators : KindSet
  functions : KindSet
  containers : KindSet
  conditions : KindSet
  bodies : KindSet
  alternatives : KindSet
  arms : KindSet
  armContainers : KindSet
  names : KindSet
  fallbackNames : KindSet
  comments : KindSet

/-- Two ways to name tables: replacing some, and adding to some. -/
inductive KindChange where
  | replacement
  | extension
deriving DecidableEq, Repr

/-- Why tables cannot be built. -/
inductive KindFault where
  /-- There are no tables of these names. -/
  | unknownTables (names : List Text)
  /-- A set of tables has none of this name. -/
  | unknownArgument (name : Text)
  /-- The name of the tables that are changed stands for one of them. -/
  | reserved (change : KindChange)
deriving DecidableEq, Repr

/-- The name that stands for the tables that are changed, and so for none of
them. -/
def reservedName : Text := "self"

/-- The wording of a fault. -/
def KindFault.message : KindFault → Text
  | .unknownTables names => "Unknown kind tables: " ++ Text.joined ", " names
  | .unknownArgument name =>
    "KindTable.__init__() got an unexpected keyword argument '" ++ name ++ "'"
  | .reserved .replacement =>
    "KindTable.__init__() got multiple values for argument '" ++ reservedName ++ "'"
  | .reserved .extension =>
    "KindTable.extended() got multiple values for argument '" ++ reservedName ++ "'"

namespace KindTable

/-- The kinds of a role. -/
def kinds (table : KindTable) : Role → KindSet
  | .branches => table.branches
  | .loops => table.loops
  | .choices => table.choices
  | .terminators => table.terminators
  | .functions => table.functions
  | .containers => table.containers
  | .conditions => table.conditions
  | .bodies => table.bodies
  | .alternatives => table.alternatives
  | .arms => table.arms
  | .armContainers => table.armContainers
  | .names => table.names
  | .fallbackNames => table.fallbackNames
  | .comments => table.comments

/-- The tables with the given kinds for each role. -/
def ofRoles (kinds : Role → KindSet) : KindTable where
  branches := kinds .branches
  loops := kinds .loops
  choices := kinds .choices
  terminators := kinds .terminators
  functions := kinds .functions
  containers := kinds .containers
  conditions := kinds .conditions
  bodies := kinds .bodies
  alternatives := kinds .alternatives
  arms := kinds .arms
  armContainers := kinds .armContainers
  names := kinds .names
  fallbackNames := kinds .fallbackNames
  comments := kinds .comments

/-- A table of sets holds the set of each role. -/
@[simp]
theorem kinds_ofRoles (kinds : Role → KindSet) (role : Role) :
    (ofRoles kinds).kinds role = kinds role := by
  cases role <;> rfl

/-- Tables with the same kinds for each role are equal. -/
theorem ext_kinds {table other : KindTable} (h : ∀ role, table.kinds role = other.kinds role) :
    table = other := by
  obtain ⟨⟩ := table
  obtain ⟨⟩ := other
  simp only [mk.injEq]
  exact ⟨h .branches, h .loops, h .choices, h .terminators, h .functions, h .containers,
    h .conditions, h .bodies, h .alternatives, h .arms, h .armContainers, h .names,
    h .fallbackNames, h .comments⟩

/-- Whether a kind plays a role. -/
def has (table : KindTable) (role : Role) (kind : Json) : Bool :=
  kind.key ∈ table.kinds role

/-- The category of a kind, if it has one. -/
def category? (table : KindTable) (kind : Json) : Option Category :=
  Category.all.find? fun category => table.has category.role kind

/-- Whether nodes of a kind make blocks of their own. -/
def isStructural (table : KindTable) (kind : Json) : Bool :=
  (table.category? kind).isSome

/-- Tables with more kinds for each role. Functions become containers too. -/
def extend (table : KindTable) (extra : Role → KindSet) : KindTable :=
  let merged (role : Role) := table.kinds role ∪ extra role
  ofRoles fun role =>
    if role = .containers then merged .containers ∪ merged .functions else merged role

/-- The kinds that a list of named tables has for a role. -/
def namedKinds (tables : List (Text × List Json.Key)) (role : Role) : Option KindSet :=
  (List.lookup (role.name : Text) tables).map KindSet.ofList

/-- Tables with more kinds, given by the names of the tables. -/
def extendNamed (table : KindTable) (extra : List (Text × List Json.Key)) :
    Except KindFault KindTable :=
  let names := extra.map Prod.fst
  if names.contains reservedName then .error (.reserved .extension)
  else
    match names.filter fun name => (Role.ofName? name).isNone with
    | [] => .ok (table.extend fun role => (namedKinds extra role).getD ∅)
    | unknown => .error (.unknownTables (unknown.mergeSort Text.le))

/-- Tables with some of them replaced, given by their names. -/
def replaceNamed (table : KindTable) (tables : List (Text × List Json.Key)) :
    Except KindFault KindTable :=
  match (tables.map Prod.fst).find? fun name => (Role.ofName? name).isNone with
  | none => .ok (ofRoles fun role => (namedKinds tables role).getD (table.kinds role))
  | some name =>
    .error (if name == reservedName then .reserved .replacement else .unknownArgument name)

/-! ### The tables for known grammars -/

/-- The kinds of functions. -/
def functionKinds : List Text :=
  ["function_declaration", "function_definition", "function_item", "method_definition",
    "method_declaration", "arrow_function", "lambda", "lambda_expression", "closure_expression",
    "value_definition"]

/-- The kinds of rows of statements that are no functions. -/
def statementRowKinds : List Text :=
  ["program", "source_file", "source", "module", "block", "statement_block",
    "compound_statement", "declaration_list", "field_declaration_list"]

/-- The kinds of a role in the grammars that are known. -/
def knownKinds : Role → List Text
  | .branches =>
    ["if_statement", "if_expression", "if_let_expression", "conditional_expression",
      "ternary_expression"]
  | .loops =>
    ["for_statement", "for_expression", "for_in_statement", "while_statement", "while_expression",
      "loop_expression", "do_statement", "for_range_statement"]
  | .choices =>
    ["match_expression", "match_statement", "switch_statement", "switch_expression",
      "expression_switch_statement", "type_switch_statement"]
  | .terminators =>
    ["return_statement", "return_expression", "break_statement", "break_expression",
      "continue_statement", "continue_expression", "throw_statement", "raise_statement"]
  | .functions => functionKinds
  | .containers =>
    statementRowKinds ++ functionKinds
  | .conditions =>
    ["condition", "parenthesized_expression", "binary_expression", "comparison_operator"]
  | .bodies => ["block", "statement_block", "compound_statement", "consequence", "body"]
  | .alternatives => ["else_clause", "else", "alternative"]
  | .arms =>
    ["match_arm", "switch_case", "switch_default", "case_clause", "default_clause", "match_case",
      "expression_case", "type_case", "default_case"]
  | .armContainers => ["match_block", "switch_body", "switch_block", "block"]
  | .names => ["identifier", "name"]
  | .fallbackNames => ["property_identifier", "field_identifier"]
  | .comments => ["comment", "line_comment", "block_comment"]

/-- The tables for the grammars that are known. -/
def default : KindTable :=
  ofRoles fun role => KindSet.ofList ((knownKinds role).map .text)

instance : Inhabited KindTable := ⟨default⟩

end KindTable

end Flowchart
