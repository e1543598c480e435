import Flowchart.CommandLine.Request

/-!
# `Flowchart.CommandLine.Wording`: help and complaints

The texts that explain the command line, and the wording of what is wrong
with one.
-/

set_option autoImplicit false

namespace Flowchart.CommandLine

/-- The name of the program. -/
def programName : String := "cfgview"

/-- The version of the program. -/
def versionText : String := programName ++ " 0.1.0"

/-- The long spelling of an option. -/
def Flag.spelling : Flag → String
  | .help => "--help"
  | .version => "--version"
  | .verbose => "--verbose"
  | .language => "--lang"
  | .completion => "--print-completion"

/-- The wording of a fault. -/
def UsageFault.message : UsageFault → Text
  | .ambiguous word => "ambiguous option: " ++ word
  | .unexpectedValue flag => "option takes no value: " ++ flag.spelling
  | .missingValue flag => "option needs a value: " ++ flag.spelling
  | .notLanguage name => "unknown language: " ++ name
  | .notShell name => "unknown shell: " ++ name
  | .missingCommand => "a command is required"
  | .notCommand name => "unknown command: " ++ name
  | .missingFile => "a file is required"
  | .unrecognized words => "unrecognized arguments: " ++ Text.joined " " words

/-- What a command does. -/
def Command.summary : Command → String
  | .graph => "Control flow graph"
  | .layout => "Layered layout of the control flow graph"
  | .tables => "Node-kind classification tables"

/-- How a command is called. -/
def Command.usage (command : Command) : String :=
  "usage: " ++ programName ++ " " ++ command.name ++ " [-h]" ++
    (if command.takesFile then " [--lang LANGUAGE] file" else "") ++ "\n"

/-- How the program is called. -/
def usage : String :=
  "usage: " ++ programName ++ " [-h] [--version] [-v] command ...\n"

/-- The help on a command, or on all of them. -/
def help : Option Command → String
  | some command => command.usage ++ "\n" ++ command.summary ++ "\n"
  | none =>
    usage ++ "\nControl flow graphs and layered layouts from source code\n\ncommands:\n" ++
      String.join (Command.all.map fun command =>
        "  " ++ command.name ++ ": " ++ command.summary ++ "\n")

/-- The complaint about a command line. -/
def complaint (fault : UsageFault) : Text :=
  usage ++ programName ++ ": error: " ++ fault.message ++ "\n"

end Flowchart.CommandLine
