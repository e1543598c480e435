import Flowchart.Files.Tree
import Flowchart.Json.Reader
import Flowchart.Layout.Style
import Flowchart.Notice
import Flowchart.Text.Numeral
import Flowchart.Text.Utf8

/-!
# `Flowchart.Settings`: what the user sets

Settings are an object. They start from the defaults; the file of the
project is merged into them, and then the file that the environment names. A
member that is an object on both sides is merged member by member, any other
one is replaced. Nothing says that a member has a value that can be used.

A file that is not there says nothing. One that cannot be read, or holds no
JSON object, is passed over with a notice; but a file that is not UTF-8 or
holds a number with too many digits puts an end to the loading, and so does
a path that is not looked up.

- `load`: the notices on the way, and the settings or what put an end to it.
-/

set_option autoImplicit false

namespace Flowchart

/-- The settings of a run. -/
structure Settings where
  members : Json.Members

namespace Settings

/-- The settings that all others are merged into. -/
def default : Settings :=
  ⟨[("summary_max", .int 48), ("layout", Style.default.toJson)]⟩

/-- The most characters that a label may have. -/
def summaryLimit (settings : Settings) : Json :=
  (settings.members.lookup "summary_max").getD .null

/-- The style of layouts. -/
def style (settings : Settings) : Except Fault (Style Json) :=
  Style.ofJson ((settings.members.lookup "layout").getD .null)

/-- One member merged into an object. -/
def mergeMember (members : Json.Members) (member : Text × Json) : Json.Members :=
  match member.2, members.lookup member.1 with
  | .object new, some (.object old) => members.put member.1 (.object (Json.Members.putAll old new))
  | value, _ => members.put member.1 value

/-- The members of an object merged into settings. -/
def merge (settings : Settings) (members : Json.Members) : Settings :=
  ⟨members.foldl mergeMember settings.members⟩

/-- Why settings cannot be loaded. -/
inductive LoadFault where
  | notText (fault : Text.Utf8.Fault)
  | tooManyDigits (count : Nat)
  | refused (refusal : Refusal) (path : Text)
deriving DecidableEq, Repr

/-- The wording of a fault. -/
def LoadFault.message : LoadFault → Text
  | .notText fault => fault.message
  | .tooManyDigits count => Text.tooManyDigitsMessage count
  | .refused refusal path => refusal.message path

/-- What a settings file says. -/
inductive Finding where
  | nothing
  | members (members : Json.Members)
  /-- The file is passed over. -/
  | passedOver (notice : Notice)
  | fault (fault : LoadFault)

/-- What the text of a settings file says. -/
def findingOfText (path text : Text) : Finding :=
  match Json.read text with
  | .ok (.object members) => .members members
  | .ok _ => .passedOver (.settingsNotObject path)
  | .error .malformed => .passedOver (.settingsUnreadable path)
  | .error (.tooManyDigits count) => .fault (.tooManyDigits count)

/-- What lies at the path of a settings file, and what it says. -/
def findingOf (path : Text) : Entry → Finding
  | .missing => .nothing
  | .directory | .unreadable => .passedOver (.settingsUnreadable path)
  | .refused refusal => .fault (.refused refusal path)
  | .file bytes =>
    match Text.Utf8.readStrict bytes with
    | .ok text => findingOfText path text
    | .error fault => .fault (.notText fault)

/-- What comes of loading: the notices on the way, and the settings or what
put an end to it. -/
structure Loading where
  notices : List Notice
  result : Except LoadFault Settings

/-- Merges the settings files at some paths, in order. -/
def loadFrom (files : Files) (settings : Settings) : List FilePath → Loading
  | [] => ⟨[], .ok settings⟩
  | path :: rest =>
    match findingOf path.text (files path.text) with
    | .nothing => loadFrom files settings rest
    | .members members => loadFrom files (settings.merge members) rest
    | .passedOver notice =>
      let loading := loadFrom files settings rest
      { loading with notices := notice :: loading.notices }
    | .fault fault => ⟨[], .error fault⟩

/-- The path of the settings file of a project. -/
def projectPath (project : FilePath) : FilePath :=
  project.join ⟨.relative, [".cfgview", "config.json"]⟩

/-- The paths of settings files: that of the project, and the one that the
environment names. An empty name names none. -/
def paths (project : FilePath) (named : Option Text) : List FilePath :=
  projectPath project :: ((named.filter (!·.isEmpty)).map FilePath.ofText).toList

/-- Loads the settings of a project. -/
def load (files : Files) (project : FilePath) (named : Option Text) : Loading :=
  loadFrom files default (paths project named)

end Settings

end Flowchart
