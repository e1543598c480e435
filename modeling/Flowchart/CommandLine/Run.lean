import Flowchart.Builder
import Flowchart.CommandLine.Wording
import Flowchart.Json.Writer
import Flowchart.Kinds.Json
import Flowchart.Language.Parsing
import Flowchart.Layout.Json
import Flowchart.Settings
import Flowchart.Text.Line

/-!
# `Flowchart.CommandLine.Run`: running a command line

A command that draws reads its file, settles on a language, loads the
settings, parses, builds the graph and, if asked, lays it out. Whatever the
user can mend (a file, a language, a settings file, an installation) is
reported in one line with exit code 1. A value that cannot be used breaks the run
off, and so does a path that is not looked up or a source that may not be read:
then the run has no outcome.

The world is a `Host`: the files, the place where the run happens, a parser, and
what writes completion scripts. A run asks it and changes nothing.

- `perform`: the output of a task;
- `run`: the outcome of a command line.
-/

set_option autoImplicit false

namespace Flowchart.CommandLine

/-- What writes completion scripts. -/
structure Completion where
  /-- The shells that there are scripts for, if it is installed. -/
  shells : Option (List Text)
  /-- The script for a shell, or for no shell, or why there is none. -/
  script : Option Text → Except Text Text

/-- Where a command line is run. -/
structure Host where
  files : Files
  workingDirectory : FilePath
  /-- The settings file that the environment names. -/
  settingsFile : Option Text
  parser : Parsing.Parser
  completion : Completion

/-- A source that was given to a parser, and the grammar it was read with. -/
structure Parse where
  grammar : Grammar
  source : Text
deriving DecidableEq, Repr

/-- What a run leaves behind besides its output. -/
structure Trail where
  notices : List Notice
  parses : List Parse

/-- Why a run is broken off. -/
inductive Abort where
  /-- A value cannot be used. -/
  | value (fault : Fault)
  /-- A path is not looked up, or a file not read. -/
  | refused (refusal : Refusal) (path : Text)
  /-- There is no completion script. -/
  | noScript (reason : Text)
deriving DecidableEq, Repr

/-- The wording of a broken run. -/
def Abort.message : Abort → Text
  | .value fault => fault.message
  | .refused refusal path => refusal.message path
  | .noScript reason => reason

/-- Why a task has no output. -/
inductive Failure where
  | fileMissing (path : Text)
  | notFile (path : Text)
  | settings (fault : Settings.LoadFault)
  | parsing (fault : Parsing.Fault)
  | abort (cause : Abort)

/-- A value of the task cannot be used. -/
def Failure.value (fault : Fault) : Failure :=
  .abort (.value fault)

/-- Work that leaves a trail, also when it fails. -/
abbrev Work := ExceptT Failure (StateM Trail)

namespace Work

/-- Leaves notices. -/
def notify (notices : List Notice) : Work Unit :=
  modify fun trail => { trail with notices := trail.notices ++ notices }

/-- Remembers what was given to a parser. -/
def remember (parse : Parse) : Work Unit :=
  modify fun trail => { trail with parses := trail.parses ++ [parse] }

/-- A result that may be a failure. -/
def ofExcept {ε α : Type} (failure : ε → Failure) : Except ε α → Work α
  | .ok value => pure value
  | .error fault => throw (failure fault)

end Work

/-- The text of a source file. What is not UTF-8 in it is replaced. -/
def sourceOf (host : Host) (path : Text) : Work Text :=
  match host.files path with
  | .missing => throw (.fileMissing path)
  | .directory => throw (.notFile path)
  | .unreadable => throw (.abort (.refused .denied (FilePath.ofText path).text))
  | .refused refusal => throw (.abort (.refused refusal (FilePath.ofText path).text))
  | .file bytes => return Text.unifyLineEnds (Text.Utf8.readLenient bytes)

/-- The settings of a run. -/
def settingsOf (host : Host) : Work Settings := do
  let loading := Settings.load host.files host.workingDirectory host.settingsFile
  Work.notify loading.notices
  Work.ofExcept .settings loading.result

/-- The tree of a source. -/
def treeOf (host : Host) (language : Language) (source : Text) : Work SyntaxTree := do
  let (grammar, tree, notices) ← Work.ofExcept .parsing
    (Parsing.parse host.parser language source)
  Work.remember ⟨grammar, source⟩
  Work.notify notices
  return tree

/-- The settings for a file, and the graph of the file. -/
def drawn (host : Host) (target : Target) : Work (Settings × Graph) := do
  let source ← sourceOf host target.file
  let language := target.language.getD (Language.ofPath target.file)
  let settings ← settingsOf host
  let tree ← treeOf host language source
  let encoded ← Work.ofExcept (.parsing ∘ .notEncodable) (Source.ofText source)
  let builder := Builder.new encoded KindTable.default settings.summaryLimit
  let (graph, notices) ← Work.ofExcept .value (builder.build tree).2
  Work.notify notices
  return (settings, graph)

/-- A value as the output of a task: one item a line. -/
def outputOf (ascii : Bool) (value : Json) : Text :=
  value.render ⟨true, ascii⟩ ++ "\n"

/-- The layout of a file. -/
def laidOut (host : Host) (target : Target) : Work Json := do
  let (settings, graph) ← drawn host target
  let style ← Work.ofExcept .value settings.style
  let diagram := graph.diagram
  let placed ← Work.ofExcept .value (Layout.place Metrics.widthOf style diagram)
  Work.notify (Layout.notices diagram)
  let extent ← Work.ofExcept .value (Layout.bounds placed)
  let backEdges ← Work.ofExcept .value (Layout.backEdges diagram.arrows placed)
  Work.notify [Layout.backEdgesNotice diagram.arrows backEdges]
  return Layout.report diagram placed backEdges extent

/-- The output of a task. -/
def perform (host : Host) : Task → Work Text
  | .tables => return outputOf true KindTable.default.toJson
  | .graph target => do
    let (_, graph) ← drawn host target
    return outputOf false graph.toJson
  | .layout target => do
    let report ← laidOut host target
    return outputOf false report

/-- What a run comes to. -/
structure Outcome where
  code : Nat
  output : Text
  errors : Text
  /-- What was given to a parser. -/
  parses : List Parse

/-- Whether a notice is shown. Details are shown to those who ask. -/
def isShown (verbose : Bool) (notice : Notice) : Bool :=
  verbose || notice.level == .warning

/-- The lines of the notices that are shown. -/
def noticeLines (verbose : Bool) (notices : List Notice) : Text :=
  (notices.filter (isShown verbose)).flatMap fun notice => notice.line ++ "\n"

/-- The wording of a failure that the user can mend; any other one breaks
the run off. -/
def Failure.message : Failure → Except Abort Text
  | .fileMissing path => .ok ("File not found: " ++ path)
  | .notFile path => .ok ("Not a file: " ++ path)
  | .settings (.refused refusal path) => .error (.refused refusal path)
  | .settings fault => .ok fault.message
  | .parsing fault => .ok fault.message
  | .abort cause => .error cause

/-- The outcome of a task. -/
def runTask (host : Host) (verbose : Bool) (task : Task) : Except Abort Outcome :=
  match (perform host task).run ⟨[], []⟩ with
  | (.ok output, trail) => .ok ⟨0, output, noticeLines verbose trail.notices, trail.parses⟩
  | (.error failure, trail) => do
    let message ← failure.message
    let errors := noticeLines verbose trail.notices ++ "Error: " ++ message ++ "\n"
    return ⟨1, [], errors, trail.parses⟩

/-- The outcome of asking for a completion script. -/
def runCompletion (completion : Completion) (shell : Option Text) : Except Abort Outcome := do
  let script ← (completion.script shell).mapError Abort.noScript
  return ⟨0, script ++ "\n", [], []⟩

/-- The outcome of a command line. One that makes no sense has exit code 2. -/
def run (host : Host) (arguments : List Text) : Except Abort Outcome :=
  match read host.completion.shells arguments with
  | .error fault => .ok ⟨2, [], complaint fault, []⟩
  | .ok (.help command) => .ok ⟨0, help command, [], []⟩
  | .ok .version => .ok ⟨0, versionText ++ "\n", [], []⟩
  | .ok (.completion shell) => runCompletion host.completion shell
  | .ok (.run verbose task) => runTask host verbose task

end Flowchart.CommandLine
