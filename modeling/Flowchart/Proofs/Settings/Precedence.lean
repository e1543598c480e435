import Mathlib.Data.List.Nodup
import Flowchart.Proofs.Json.Reader
import Flowchart.Proofs.Settings.Loading

/-!
# `Flowchart.Proofs.Settings.Precedence`: which file a setting is taken from

What the environment's file says counts before what the project's file says,
and that before the defaults. For the style this holds value by value, since
objects are merged into each other member by member: a file that sets one gap
leaves the other values to the other file. It takes a layout that is an object
in both files, since any other one replaces all values at once.

The limit of labels follows the same rule as long as one of the files gives no
object for it. Two objects are merged as two layouts are, though no object can
be a limit: `summaryLimit_two_objects` has the environment's file say one thing
and the settings another. Neither the style nor the limit depends on any other
member of the files.

* `Gives`: what a file adds to the settings, where a missing one adds nothing;
* `overlaid`: what is there once one member is merged into another;
* `lookup_merge`: a merged object name by name;
* `load_gives`: the settings are both files merged into the defaults, in order;
* `load_precedence`: which file each value of a style and the limit are from.
-/

set_option autoImplicit false

namespace Flowchart.Settings

open Json (Members)

/-! ### What a file gives -/

/-- What an entry gives to the settings without being passed over: the members
of its object, and nothing if it is missing. -/
inductive Gives : Entry → Members → Prop where
  | missing : Gives .missing []
  | object {entry : Entry} {members : Members} (h : members? entry = some members) :
      Gives entry members

/-- The entry at the path that the environment names. -/
def namedEntry (files : Files) (named : Option Text) : Entry :=
  ((named.filter (!·.isEmpty)).map fun path => files (FilePath.ofText path).text).getD .missing

/-- The layout, if there is one, is an object. -/
def HasLayout (members : Members) : Prop :=
  ∀ value, members.lookup "layout" = some value → ∃ layout, value = .object layout

/-- The members of the layout. -/
def layoutOf (members : Members) : Members :=
  match members.lookup "layout" with
  | some (.object layout) => layout
  | _ => []

/-- The members of an entry were read from a text. -/
theorem exists_read_of_members? {entry : Entry} {members : Members}
    (h : members? entry = some members) : ∃ text, Json.read text = .ok (.object members) := by
  -- The two readers are undone one by one: members are those of an object, a value is that of a
  -- text.
  have hvalue : value? entry = some (.object members) := by
    unfold members? at h
    split at h
    next found heq =>
      cases h
      exact heq
    next => cases h
  unfold value? at hvalue
  split at hvalue
  next bytes =>
    split at hvalue
    next text htext =>
      cases hread : Json.read text with
      | ok value =>
        rw [hread] at hvalue
        cases hvalue
        exact ⟨text, hread⟩
      | error fault =>
        rw [hread] at hvalue
        cases hvalue
    next => cases hvalue
  next => cases hvalue

/-- What a file gives was read, so that no two of its members have one name. -/
theorem Gives.unambiguous {entry : Entry} {members : Members} (h : Gives entry members) :
    Json.Unambiguous (.object members) := by
  cases h with
  | missing => exact .object .nil nofun
  | object h =>
    obtain ⟨text, hread⟩ := exists_read_of_members? h
    exact Json.unambiguous_of_read hread

/-- What stands in the layout of an object without repeated names has none
either. -/
theorem unambiguous_layoutOf {members : Members} (h : Json.Unambiguous (.object members)) :
    Json.Unambiguous (.object (layoutOf members)) := by
  unfold layoutOf
  split
  next layout hlayout => exact h.of_lookup hlayout
  next => exact .object .nil nofun

/-! ### Merging -/

/-- What is there under a name once one object is merged into another, from what
is there in each of them. -/
def overlaid : Option Json → Option Json → Option Json
  | some (.object old), some (.object new) => some (.object (Members.putAll old new))
  | old, new => new.or old

/-- Where nothing is laid over, all stays as it was. -/
@[simp]
theorem overlaid_none (old : Option Json) : overlaid old none = old := by
  unfold overlaid
  split
  next h => cases h
  next => rfl

/-- A value takes the place of another one, unless both are objects. -/
theorem overlaid_eq_or {old new : Option Json}
    (h : ∀ olds news, ¬(old = some (.object olds) ∧ new = some (.object news))) :
    overlaid old new = new.or old := by
  unfold overlaid
  split
  next olds news => exact absurd ⟨rfl, rfl⟩ (h olds news)
  next => rfl

/-- A layout is laid over an object member by member. -/
theorem overlaid_layout {members : Members} (h : HasLayout members) (base : Members) :
    overlaid (some (.object base)) (members.lookup "layout") =
      some (.object (base.putAll (layoutOf members))) := by
  unfold layoutOf
  cases hlookup : members.lookup "layout" with
  | none => rfl
  | some value =>
    obtain ⟨layout, rfl⟩ := h value hlookup
    simp only [overlaid]

/-- A member that is merged in changes what is there under its own name. -/
theorem lookup_mergeMember (members : Members) (member : Text × Json) (name : Text) :
    Members.lookup (mergeMember members member) name =
      if name = member.1 then overlaid (members.lookup name) (some member.2)
      else members.lookup name := by
  obtain ⟨name', value⟩ := member
  unfold mergeMember
  split
  -- Two objects are put together, and only under the name of the member.
  next new old hnew hold =>
    cases hnew
    split
    next hname =>
      subst hname
      rw [Members.lookup_put_self, hold]
      simp only [overlaid]
    next hname => rw [Members.lookup_put_of_ne _ _ hname]
  -- Else the new value takes the place of the old one.
  next hother =>
    split
    next hname =>
      subst hname
      rw [Members.lookup_put_self]
      unfold overlaid
      split
      next old new hold hnew =>
        cases hnew
        exact (hother new old rfl hold).elim
      next => rfl
    next hname => rw [Members.lookup_put_of_ne _ _ hname]

/-- What merged settings have under a name, from what both sides have under it. -/
theorem lookup_merge {additions : Members} (h : (additions.map Prod.fst).Nodup)
    (settings : Settings) (name : Text) :
    (settings.merge additions).members.lookup name =
      overlaid (settings.members.lookup name) (additions.lookup name) := by
  induction additions generalizing settings with
  | nil => exact (overlaid_none _).symm
  | cons addition rest ih =>
    obtain ⟨name', value⟩ := addition
    obtain ⟨hfirst, hrest⟩ := List.nodup_cons.1 h
    have hmerge : settings.merge ((name', value) :: rest) =
        Settings.merge ⟨mergeMember settings.members (name', value)⟩ rest := rfl
    rw [hmerge, ih hrest, lookup_mergeMember, Members.lookup_cons]
    split
    next hname =>
      -- the name does not come up again
      have hnone : Members.lookup rest name = none :=
        Members.lookup_eq_none fun member hmember heq =>
          hfirst (List.mem_map.2 ⟨member, hmember, heq.trans hname⟩)
      rw [hnone, overlaid_none]
    next => rfl

/-! ### Loading -/

variable {files : Files} {project : FilePath} {named : Option Text} {first second : Members}

/-- What the first file gives is merged into the settings before the rest is
loaded. -/
theorem loadFrom_gives {path : FilePath} {members : Members}
    (h : Gives (files path.text) members) (settings : Settings) (rest : List FilePath) :
    (loadFrom files settings (path :: rest)).result =
      (loadFrom files (settings.merge members) rest).result := by
  generalize hentry : files path.text = entry at h
  -- A file that is missing gives no members, and merging none changes nothing.
  cases h with
  | missing =>
    rw [loadFrom, hentry]
    rfl
  | object hmembers =>
    have hunbroken : ¬Breaks entry := by
      intro hbreaks
      rw [members?, hbreaks.value?_eq_none] at hmembers
      cases hmembers
    rw [loadFrom, hentry, findingOf_unbroken hunbroken, hmembers]

/-- The settings are the defaults with what both files give merged into them, that
of the project first. -/
theorem load_gives (hproject : Gives (files (projectPath project).text) first)
    (hnamed : Gives (namedEntry files named) second) :
    (load files project named).result = .ok ((default.merge first).merge second) := by
  rw [load, paths, loadFrom_gives hproject]
  unfold namedEntry at hnamed
  cases hpath : named.filter (!·.isEmpty) with
  | none =>
    rw [hpath] at hnamed
    cases hnamed with
    | missing => rfl
    | object hmembers => cases hmembers
  | some path =>
    rw [hpath] at hnamed
    exact loadFrom_gives hnamed _ []

/-! ### Styles -/

/-- A style that is read from an object, member by member. -/
theorem members_ofMembers (members : Members) :
    (Style.ofMembers members).members =
      Style.default.members.map fun field => (field.1, (members.lookup field.1).getD field.2) :=
  rfl

/-- Each field of the default style is found under its name. -/
theorem lookup_default {field : Text × Json} (h : field ∈ (Style.default : Style Json).members) :
    (Style.default : Style Json).members.lookup field.1 = some field.2 := by
  have hnodup : ((Style.default : Style Json).members.map Prod.fst).Nodup := by decide
  refine Members.lookup_eq_some h fun other hother => ?_
  exact congrArg Prod.snd (List.inj_on_of_nodup_map hnodup hother h rfl)

/-- The style of the defaults with two layouts put into them, one after the other. -/
theorem members_style_putAll {first second : Members} (hfirst : (first.map Prod.fst).Nodup)
    (hsecond : (second.map Prod.fst).Nodup) :
    ∃ style, Style.ofJson (.object
        (((Style.default : Style Json).members.putAll first).putAll second)) = .ok style ∧
      style.members = Style.default.members.map fun field =>
        (field.1, ((second.lookup field.1).or (first.lookup field.1)).getD field.2) := by
  generalize hlayout : ((Style.default : Style Json).members.putAll first).putAll second = layout
  have hlookup : ∀ field ∈ (Style.default : Style Json).members,
      layout.lookup field.1 =
        some (((second.lookup field.1).or (first.lookup field.1)).getD field.2) := by
    intro field hfield
    rw [← hlayout, Members.lookup_putAll hsecond, Members.lookup_putAll hfirst,
      lookup_default hfield]
    cases second.lookup field.1 <;> cases first.lookup field.1 <;> rfl
  -- it still has a font, so it is not passed over for being empty
  have htruthy : (Json.object layout).isTruthy = true := by
    cases layout with
    | nil => cases hlookup (_, _) List.mem_cons_self
    | cons => rfl
  refine ⟨Style.ofMembers layout, by rw [Style.ofJson, if_pos htruthy], ?_⟩
  rw [members_ofMembers]
  refine List.map_congr_left fun field hfield => ?_
  rw [hlookup field hfield]
  rfl

/-! ### Which file counts -/

section

variable (hfirst : (first.map Prod.fst).Nodup) (hsecond : (second.map Prod.fst).Nodup)

include hfirst hsecond

/-- What is there once two objects were merged in, one after the other. -/
theorem lookup_merge_merge (name : Text) :
    ((default.merge first).merge second).members.lookup name =
      overlaid (overlaid (default.members.lookup name) (first.lookup name))
        (second.lookup name) := by
  rw [lookup_merge hsecond, lookup_merge hfirst]

/-- The limit that the settings start from is no object, so two files are needed
for objects to be merged. -/
theorem summaryLimit_merge_merge :
    ((default.merge first).merge second).summaryLimit =
      (overlaid ((first.lookup "summary_max").or (some (.int 48)))
        (second.lookup "summary_max")).getD .null := by
  have hdefault : default.members.lookup "summary_max" = some (.int 48) := rfl
  have hproject : overlaid (some (.int 48)) (first.lookup "summary_max") =
      (first.lookup "summary_max").or (some (.int 48)) :=
    overlaid_eq_or fun olds _ h => nomatch h.1
  rw [summaryLimit, lookup_merge_merge hfirst hsecond, hdefault, hproject]

/-- A style is read from the defaults, with the layouts of both objects laid
over them. -/
theorem style_merge_merge (hlayout : HasLayout first) (hlayout' : HasLayout second) :
    ((default.merge first).merge second).style =
      Style.ofJson (.object (((Style.default : Style Json).members.putAll (layoutOf first)).putAll
        (layoutOf second))) := by
  have hdefault : default.members.lookup "layout" =
      some (.object (Style.default : Style Json).members) := rfl
  rw [style, lookup_merge_merge hfirst hsecond, hdefault, overlaid_layout hlayout,
    overlaid_layout hlayout']
  rfl

end

/-- If both settings files hold objects or are missing, and their layouts are
objects where there are any, then settings are loaded and have a style. Each of
its values is that of the environment's file if its layout has one, else that of
the project's file if its layout has one, else the default. The limit of labels
is found in the same way, unless both files give an object for it: then it is
the project's object with the members of the environment's set in it. -/
theorem load_precedence (hproject : Gives (files (projectPath project).text) first)
    (hnamed : Gives (namedEntry files named) second) (hfirst : HasLayout first)
    (hsecond : HasLayout second) :
    ∃ settings style,
      (load files project named).result = .ok settings ∧
      settings.style = .ok style ∧
      style.members = (Style.default.members.map fun field =>
        (field.1, (((layoutOf second).lookup field.1).or
          ((layoutOf first).lookup field.1)).getD field.2)) ∧
      ((∀ old new, ¬(first.lookup "summary_max" = some (.object old) ∧
          second.lookup "summary_max" = some (.object new))) →
        settings.summaryLimit =
          ((second.lookup "summary_max").or (first.lookup "summary_max")).getD (.int 48)) ∧
      (∀ old new, first.lookup "summary_max" = some (.object old) →
        second.lookup "summary_max" = some (.object new) →
        settings.summaryLimit = .object (Members.putAll old new)) := by
  have hnodup := hproject.unambiguous.nodup
  have hnodup' := hnamed.unambiguous.nodup
  obtain ⟨style, hstyle, hmembers⟩ := members_style_putAll
    (unambiguous_layoutOf hproject.unambiguous).nodup
    (unambiguous_layoutOf hnamed.unambiguous).nodup
  refine ⟨_, style, load_gives hproject hnamed, ?_, hmembers, ?_, ?_⟩
  · rw [style_merge_merge hnodup hnodup' hfirst hsecond, hstyle]
  -- Unless there are two objects, the value of the second file decides, then that of the first.
  · intro hobjects
    rw [summaryLimit_merge_merge hnodup hnodup', overlaid_eq_or]
    · cases second.lookup "summary_max" <;> cases first.lookup "summary_max" <;> rfl
    · rintro old new ⟨hold, hnew⟩
      cases hlookup : first.lookup "summary_max" with
      | none =>
        rw [hlookup] at hold
        cases hold
      | some value =>
        rw [hlookup] at hold
        exact hobjects old new ⟨hlookup.trans hold, hnew⟩
  · intro old new hold hnew
    rw [summaryLimit_merge_merge hnodup hnodup', hold, hnew]
    rfl

/-! ### Two files -/

namespace Sample

/-- The file of a text that has one byte for each character. -/
def ascii (text : String) : Entry :=
  .file (text.toList.map fun c => UInt8.ofNat c.toNat)

/-- A settings file of the project and one for the environment to name. -/
def twoFiles (ofProject ofEnvironment : String) : Files := fun path =>
  if path = ".cfgview/config.json" then ascii ofProject
  else if path = "env.json" then ascii ofEnvironment
  else .missing

/-- A file of a text that has one byte for each character gives what is read
from the text. -/
theorem gives_ascii {text : String} {members : Members}
    (htext : Text.Utf8.readStrict (text.toList.map fun c => UInt8.ofNat c.toNat) =
      .ok (Text.ofString text))
    (hread : Json.read (Text.ofString text) = .ok (.object members)) :
    Gives (ascii text) members := by
  refine .object ?_
  rw [members?, ascii, value?_file htext, hread]
  rfl

/-- The file of the project gives what its text says. -/
theorem gives_project {ofProject : String} {members : Members}
    (h : Gives (ascii ofProject) members) (ofEnvironment : String) :
    Gives (twoFiles ofProject ofEnvironment (projectPath ⟨.relative, []⟩).text) members := by
  have hpath : (projectPath ⟨.relative, []⟩).text = ".cfgview/config.json" := by decide
  rw [hpath, twoFiles, if_pos rfl]
  exact h

/-- The file that the environment names gives what its text says. -/
theorem gives_named {ofEnvironment : String} {members : Members}
    (h : Gives (ascii ofEnvironment) members) (ofProject : String) :
    Gives (namedEntry (twoFiles ofProject ofEnvironment) (some "env.json")) members := by
  have hentry : namedEntry (twoFiles ofProject ofEnvironment) (some "env.json") =
      ascii ofEnvironment := by
    have hpath : (FilePath.ofText "env.json").text = "env.json" := by decide
    have hne : ("env.json" : Text) ≠ ".cfgview/config.json" := by decide
    show twoFiles ofProject ofEnvironment (FilePath.ofText "env.json").text = _
    rw [hpath, twoFiles, if_neg hne, if_pos rfl]
  rw [hentry]
  exact h

/-- A project sets the limit, two gaps and something unheard of. -/
def wide : String :=
  "\x7b\"summary_max\": 30, \"layout\": \x7b\"gap_x\": 90, \"gap_y\": 20, \"x\": 1\x7d\x7d"

/-- The environment sets one of the gaps. -/
def narrow : String :=
  "\x7b\"layout\": \x7b\"gap_x\": 7\x7d, \"gap_y\": 8\x7d"

/-- What the file with three settings and something unheard of gives. -/
theorem gives_wide : Gives (ascii wide)
    [("summary_max", .int 30),
      ("layout", .object [("gap_x", .int 90), ("gap_y", .int 20), ("x", .int 1)])] :=
  gives_ascii (by cbv) rfl

/-- What the file with one setting gives. -/
theorem gives_narrow : Gives (ascii narrow)
    [("layout", .object [("gap_x", .int 7)]), ("gap_y", .int 8)] :=
  gives_ascii (by cbv) rfl

end Sample

/-- One gap is that of the environment, the other one that of the project, and so
is the limit. The environment's gap outside of its layout does nothing. -/
theorem load_precedence_twoFiles :
    ∃ settings style,
      (load (Sample.twoFiles Sample.wide Sample.narrow) ⟨.relative, []⟩ (some "env.json")).result =
        .ok settings ∧
      settings.style = .ok style ∧
      style.members =
        { (Style.default : Style Json) with gapX := .int 7, gapY := .int 20 }.members ∧
      settings.summaryLimit = .int 30 := by
  have hwide : HasLayout [("summary_max", .int 30),
      ("layout", .object [("gap_x", .int 90), ("gap_y", .int 20), ("x", .int 1)])] := by
    rintro _ ⟨⟩
    exact ⟨_, rfl⟩
  have hnarrow : HasLayout [("layout", .object [("gap_x", .int 7)]), ("gap_y", .int 8)] := by
    rintro _ ⟨⟩
    exact ⟨_, rfl⟩
  obtain ⟨settings, style, hload, hstyle, hmembers, hlimit, -⟩ :=
    load_precedence (Sample.gives_project Sample.gives_wide Sample.narrow)
      (Sample.gives_named Sample.gives_narrow Sample.wide) hwide hnarrow
  -- What does not stand in `layout` is no field of the style, and what the style has no field for
  -- is dropped.
  refine ⟨settings, style, hload, hstyle, ?_, ?_⟩
  · rw [hmembers]
    rfl
  · rw [hlimit fun _ _ h => nomatch h.1]
    rfl

namespace Sample

/-- An object as the limit. -/
def boxedA : String :=
  "\x7b\"summary_max\": \x7b\"a\": 1\x7d\x7d"

/-- Another object as the limit. -/
def boxedB : String :=
  "\x7b\"summary_max\": \x7b\"b\": 2\x7d\x7d"

/-- An object with one member as the limit. -/
def boxed (name : String) (n : Int) : Members :=
  [("summary_max", .object [(name, .int n)])]

/-- What the first file with an object as the limit gives. -/
theorem gives_boxedA : Gives (ascii boxedA) (boxed "a" 1) :=
  gives_ascii (by cbv) rfl

/-- What the second one gives. -/
theorem gives_boxedB : Gives (ascii boxedB) (boxed "b" 2) :=
  gives_ascii (by cbv) rfl

end Sample

/-- The environment's file gives an object as the limit, but the limit is another
one if the project's file gives an object too. -/
theorem summaryLimit_two_objects :
    Gives (Sample.twoFiles Sample.boxedA Sample.boxedB (projectPath ⟨.relative, []⟩).text)
        (Sample.boxed "a" 1) ∧
      Gives (namedEntry (Sample.twoFiles Sample.boxedA Sample.boxedB) (some "env.json"))
        (Sample.boxed "b" 2) ∧
      HasLayout (Sample.boxed "a" 1) ∧ HasLayout (Sample.boxed "b" 2) ∧
      ∃ settings,
        (load (Sample.twoFiles Sample.boxedA Sample.boxedB) ⟨.relative, []⟩
          (some "env.json")).result = .ok settings ∧
        settings.summaryLimit = .object [("a", .int 1), ("b", .int 2)] ∧
        settings.summaryLimit ≠ (((Sample.boxed "b" 2).lookup "summary_max").or
          ((Sample.boxed "a" 1).lookup "summary_max")).getD (.int 48) := by
  have hproject := Sample.gives_project Sample.gives_boxedA Sample.boxedB
  have hnamed := Sample.gives_named Sample.gives_boxedB Sample.boxedA
  -- Objects are put together member by member.
  have hlimit : ((default.merge (Sample.boxed "a" 1)).merge (Sample.boxed "b" 2)).summaryLimit =
      .object [("a", .int 1), ("b", .int 2)] := by
    rw [summaryLimit_merge_merge hproject.unambiguous.nodup hnamed.unambiguous.nodup]
    rfl
  refine ⟨hproject, hnamed, ?_, ?_, _, load_gives hproject hnamed, hlimit, ?_⟩
  · rintro _ ⟨⟩
  · rintro _ ⟨⟩
  · rw [hlimit]
    rintro ⟨⟩

end Flowchart.Settings
