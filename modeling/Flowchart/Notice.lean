import Flowchart.Text.CodePoint

/-!
# `Flowchart.Notice`: what happens on the way

Work that is worth a note leaves a notice. A notice has a level, the part of
the program that gives it, and a text; details are notes for whoever looks
for a mistake, and warnings are for everyone.
-/

set_option autoImplicit false

namespace Flowchart

/-- How much a notice matters. -/
inductive Level where
  | detail
  | warning
deriving DecidableEq, Repr

/-- The name of a level. -/
def Level.name : Level → String
  | .detail => "DEBUG"
  | .warning => "WARNING"

/-- Something worth a note. -/
inductive Notice where
  /-- An entry was put in front of a block. -/
  | entryPromoted (entry target : Text)
  | graphBuilt (blocks edges : Nat)
  | laidOut (blocks layers : Nat)
  | backEdgesFound (found total : Nat)
  | syntaxErrors (language : String)
  | settingsUnreadable (path : Text)
  | settingsNotObject (path : Text)
deriving DecidableEq, Repr

namespace Notice

/-- How much a notice matters. -/
def level : Notice → Level
  | .entryPromoted _ _ | .graphBuilt _ _ | .laidOut _ _ | .backEdgesFound _ _ => .detail
  | .syntaxErrors _ | .settingsUnreadable _ | .settingsNotObject _ => .warning

/-- The part of the program that gives a notice. -/
def origin : Notice → String
  | .entryPromoted _ _ | .graphBuilt _ _ => "cfgview.cfg_builder"
  | .laidOut _ _ | .backEdgesFound _ _ => "cfgview.layout"
  | .syntaxErrors _ => "cfgview.parsing"
  | .settingsUnreadable _ | .settingsNotObject _ => "cfgview.config"

/-- The text of a notice. -/
def text : Notice → Text
  | .entryPromoted entry target => "Promoted synthetic entry " ++ entry ++ " -> " ++ target
  | .graphBuilt blocks edges =>
    "Built CFG with " ++ toString blocks ++ " blocks, " ++ toString edges ++ " edges"
  | .laidOut blocks layers =>
    "Laid out " ++ toString blocks ++ " blocks in " ++ toString layers ++ " layers"
  | .backEdgesFound found total =>
    "Classified " ++ toString found ++ " of " ++ toString total ++ " edges as back edges"
  | .syntaxErrors language => "Syntax errors while parsing " ++ language ++ " source"
  | .settingsUnreadable path => "Failed to load config " ++ path
  | .settingsNotObject path => "Ignoring config " ++ path ++ ": expected a JSON object"

/-- A notice as a line. -/
def line (notice : Notice) : Text :=
  notice.level.name ++ " " ++ notice.origin ++ ": " ++ notice.text

end Notice

end Flowchart
