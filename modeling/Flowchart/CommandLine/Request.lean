import Flowchart.CommandLine.Word
import Flowchart.Language.Basic

/-!
# `Flowchart.CommandLine.Request`: what a command line asks for

A command line names a command, with options for all commands in front of it
and its own options and arguments behind it. Options count from left to
right; one that asks for help, for the version or for a completion script ends
the reading. Words that mean nothing are only refused in the end.

Completion scripts come from a library that may be missing. Their options are
there only if it is installed, and then it says for which shells.

- `read`: what a command line asks for, given the shells of the library.
-/

set_option autoImplicit false

namespace Flowchart.CommandLine

/-- The commands. -/
inductive Command where
  | graph
  | layout
  | tables
deriving DecidableEq, Repr

namespace Command

/-- The commands, in the order in which they are listed. -/
def all : List Command :=
  [.graph, .layout, .tables]

/-- The name of a command. -/
def name : Command → String
  | .graph => "cfg"
  | .layout => "layout"
  | .tables => "kinds"

/-- The command with a name. -/
def ofName? (name : Text) : Option Command :=
  all.find? fun command => Text.ofString command.name == name

/-- Whether a command works on a file. -/
def takesFile : Command → Bool
  | .graph | .layout => true
  | .tables => false

/-- The options of a command. -/
def spellings (command : Command) : Spellings :=
  if command.takesFile then [("-h", .help), ("--help", .help), ("--lang", .language)]
  else [("-h", .help), ("--help", .help)]

end Command

/-- The options for completion scripts, if there are any shells to ask for. -/
def completionSpellings (shells : Option (List Text)) : Spellings :=
  if shells.isSome then [("--print-completion", .completion), ("-s", .completion)] else []

/-- The options in front of the command. -/
def sharedSpellings (shells : Option (List Text)) : Spellings :=
  ("-h", .help) :: ("--help", .help) :: ("--version", .version) :: ("-v", .verbose) ::
    ("--verbose", .verbose) :: completionSpellings shells

/-- A source file, and its language if the user tells it. -/
structure Target where
  file : Text
  language : Option Language
deriving DecidableEq, Repr

/-- What is to be done. -/
inductive Task where
  | graph (target : Target)
  | layout (target : Target)
  | tables
deriving DecidableEq, Repr

/-- What a command line asks for. -/
inductive Request where
  | help (command : Option Command)
  | version
  /-- The completion script for a shell. Two dashes in place of a name ask for the
  script of no shell. -/
  | completion (shell : Option Text)
  | run (verbose : Bool) (task : Task)
deriving DecidableEq, Repr

/-- What was read of the words behind a command. -/
structure Reading where
  file : Option Text
  language : Option Language
  /-- Words that mean nothing, the last one first. -/
  strays : List Text
deriving DecidableEq, Repr

namespace Reading

/-- Nothing read. -/
def empty : Reading := ⟨none, none, []⟩

/-- A word that means nothing is put aside. -/
def stray (reading : Reading) (word : Text) : Reading :=
  { reading with strays := word :: reading.strays }

/-- The language is set by its name. Two dashes in place of a name leave it
to the file. -/
def setLanguage (reading : Reading) (name : Text) : Except UsageFault Reading :=
  if name == separatorText then .ok { reading with language := none }
  else
    match Language.ofName? name with
    | some language => .ok { reading with language }
    | none => .error (.notLanguage name)

/-- Whether the next argument is the file of the command. -/
def wantsFile (reading : Reading) (command : Command) : Bool :=
  command.takesFile && reading.file.isNone

end Reading

/-- Reads the words behind a command. Asking for help leaves nothing to
read. Two dashes go with the file when they stand next to it. -/
def readWords (command : Command) : Reading → List Word → Except UsageFault (Option Reading)
  | reading, [] => .ok (some reading)
  -- A separator behind the file is taken along with it.
  | reading, .argument text :: rest =>
    if reading.wantsFile command then
      let reading := { reading with file := some text }
      match rest with
      | .separator :: rest => readWords command reading rest
      | rest => readWords command reading rest
    else readWords command (reading.stray text) rest
  | reading, .separator :: rest =>
    match reading.wantsFile command, rest with
    -- Behind a separator everything is an argument, the file included.
    | true, .argument text :: rest =>
      readWords command { reading with file := some text } rest
    | _, rest => readWords command (reading.stray separatorText) rest
  | reading, .unknown text :: rest => readWords command (reading.stray text) rest
  | reading, .option .language none :: rest =>
    match rest with
    | .argument name :: rest => do
      let reading ← reading.setLanguage name
      readWords command reading rest
    | _ => .error (.missingValue .language)
  | reading, .option .language (some name) :: rest => do
    let reading ← reading.setLanguage name
    readWords command reading rest
  | reading, .option flag none :: rest =>
    -- Help ends the reading, whatever is left.
    if flag == .help then .ok none else readWords command reading rest
  | _, .option flag (some _) :: _ => .error (.unexpectedValue flag)
  | reading, .cluster flag letters :: rest => do
    let uses ← spread command.spellings flag letters
    if uses.any fun use => use.1 == .help then return none else readWords command reading rest

/-- What is to be done, once all words are read. -/
def taskOf (reading : Reading) : Command → Except UsageFault Task
  | .tables => .ok .tables
  | .graph =>
    match reading.file with
    | some file => .ok (.graph ⟨file, reading.language⟩)
    | none => .error .missingFile
  | .layout =>
    match reading.file with
    | some file => .ok (.layout ⟨file, reading.language⟩)
    | none => .error .missingFile

/-- Reads what stands behind a command. -/
def readCommand (command : Command) (verbose : Bool) (strays arguments : List Text) :
    Except UsageFault Request := do
  let words ← classifyAll command.spellings arguments
  match ← readWords command .empty words with
  | none => return .help (some command)
  | some reading =>
    let task ← taskOf reading command
    match strays ++ reading.strays.reverse with
    | [] => return .run verbose task
    | words => .error (.unrecognized words)

/-- The completion script that is asked for. -/
def completionOf (shells : List Text) (name : Text) : Except UsageFault Request :=
  if name == separatorText then .ok (.completion none)
  else if shells.contains name then .ok (.completion (some name))
  else .error (.notShell name)

/-- What an option in front of the command comes to, if it ends the reading. -/
def endingOf? (shells : Option (List Text)) : Use → Option (Except UsageFault Request)
  | (.help, _) => some (.ok (.help none))
  | (.version, _) => some (.ok .version)
  | (.completion, some name) => some (completionOf (shells.getD []) name)
  | _ => none

/-- What the options of one word come to, if one of them ends the reading. All of them
have to have their values before the first one counts. -/
def ending (shells : Option (List Text)) (rest : List Text) (uses : List Use) :
    Except UsageFault (Option Request) := do
  let uses ← uses.mapM (completed (sharedSpellings shells) rest)
  match uses.findSome? (endingOf? shells) with
  | some request => return some (← request)
  | none => return none

/-- Reads the words from the first one on, the ones in front of the command
and then the ones behind it. -/
def readFrom (shells : Option (List Text)) (verbose : Bool) (strays : List Text) :
    List Text → Except UsageFault Request
  | [] => .error .missingCommand
  | word :: rest => do
    match ← classify (sharedSpellings shells) word with
    | .argument name =>
      match Command.ofName? name with
      | some command => readCommand command verbose strays rest
      | none => .error (.notCommand name)
    | .separator => .error (.notCommand word)
    -- Options that nobody knows are complained about only when all else is read.
    | .unknown text => readFrom shells verbose (strays ++ [text]) rest
    | .option flag value =>
      match ← ending shells rest [(flag, value)] with
      -- Help, the version and a completion end the reading, whatever is behind them.
      | some request => return request
      | none => readFrom shells (verbose || flag == .verbose) strays rest
    | .cluster flag letters =>
      let uses ← spread (sharedSpellings shells) flag letters
      match ← ending shells rest uses with
      | some request => return request
      | none => readFrom shells (verbose || uses.any fun use => use.1 == .verbose) strays rest

/-- What a command line asks for. Every word is looked at as an option in
front of the command before any of them counts. -/
def read (shells : Option (List Text)) (arguments : List Text) : Except UsageFault Request := do
  let _ ← classifyAll (sharedSpellings shells) arguments
  readFrom shells false [] arguments

end Flowchart.CommandLine
