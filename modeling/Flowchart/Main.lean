import Flowchart.CommandLine.Run

/-!
# `Flowchart.Main`: the program

Runs its command line in the working directory. The files that a run may ask
for are read beforehand. No parsing library is built in, so that a run says
what to install, and nothing that writes completion scripts either.
-/

set_option autoImplicit false

namespace Flowchart.Main

open CommandLine

/-- The number of the error for a path that is too long. -/
def tooLongNumber : UInt32 := 36

/-- The file at a place. -/
def fileAt (place : String) : IO Entry := do
  try
    return .file (← IO.FS.readBinFile place).data.toList
  catch
    | .permissionDenied .. => return .unreadable
    | error => throw error

/-- What lies at a path. What is neither a file nor a directory is no file either, and
counts as a directory. -/
def entryAt (path : Text) : IO Entry := do
  let place := (← IO.currentDir) / path.shown
  try
    if (← place.metadata).type == .file then fileAt place.toString else return .directory
  catch
    | .permissionDenied .. => return .refused .denied
    | .invalidArgument _ number _ =>
      return if number == tooLongNumber then .refused .tooLong else .missing
    | _ => return .missing

/-- The files that a request asks for. -/
def filesOf : Request → List Text
  | .run _ (.graph target) | .run _ (.layout target) => [target.file]
  | _ => []

/-- What lies at some paths. Nothing is known of any other path. -/
def snapshot (paths : List Text) : IO Files := do
  let entries ← paths.mapM fun path => return (path, ← entryAt path)
  return fun path => (entries.lookup path).getD .missing

/-- A place where nothing can be parsed. -/
def noParser : Parsing.Parser where
  installed := ⟨false, []⟩
  read := fun _ _ => ⟨default, false⟩

/-- A place where nothing writes completion scripts. -/
def noCompletion : Completion where
  shells := none
  script := fun _ => .error []

/-- The host of a run with some arguments. -/
def hostOf (arguments : List Text) : IO Host := do
  let workingDirectory := FilePath.ofText (← IO.currentDir).toString
  let settingsFile := (← IO.getEnv "CFGVIEW_CONFIG").map Text.ofString
  let sources := ((read noCompletion.shells arguments).toOption.map filesOf).getD []
  let settings := (Settings.paths workingDirectory settingsFile).map FilePath.text
  let files ← snapshot (sources ++ settings)
  return ⟨files, workingDirectory, settingsFile, noParser, noCompletion⟩

/-- Runs a command line and gives its exit code. -/
def runIn (host : Host) (arguments : List Text) : IO UInt32 :=
  match run host arguments with
  | .ok outcome => do
    IO.print outcome.output.shown
    IO.eprint outcome.errors.shown
    return outcome.code.toUInt32
  | .error abort => do
    IO.eprintln abort.message.shown
    return 1

end Flowchart.Main

/-- The program. -/
def main (arguments : List String) : IO UInt32 := do
  let arguments := arguments.map Flowchart.Text.ofString
  let host ← Flowchart.Main.hostOf arguments
  Flowchart.Main.runIn host arguments
