import Mathlib.Data.List.Basic
import Flowchart.Proofs.Except
import Flowchart.Settings

/-!
# `Flowchart.Proofs.Settings.Loading`: which files break the loading of settings

Settings files that hold no JSON object are passed over, each with a warning,
and the settings are those that there would be without such files. A directory,
a file that may not be read, a text that is no JSON and a value of another kind are
of this sort.

Three things break the loading instead. Bytes that are no UTF-8 do, and so
does a text with a whole number of more digits than a reader takes: both of
them are found while a text is read, but are no fault of its JSON. A path that is
too long, or that leads through a closed directory, does when it is asked what
lies there. All settings files have to be free of them, since no file makes up for
another one.

* `value?`, `members?`: what an entry holds, if it can be read at all;
* `Breaks`: the entries that put an end to the loading;
* `loadFrom_unbroken`: the loading of files that do not break it, all at once;
* `exists_refused`: a path that puts an end to the loading is that of a file;
* `load_succeeds_iff`: when settings are loaded, what they are, and which
  warnings there are on the way.
-/

set_option autoImplicit false

namespace Flowchart.Settings

/-! ### What an entry holds -/

/-- The value that an entry holds, if it is a file that can be read. -/
def value? : Entry → Option Json
  | .file bytes =>
    match Text.Utf8.readStrict bytes with
    | .ok text => (Json.read text).toOption
    | .error _ => none
  | _ => none

/-- The members of the object that an entry holds, if it holds one. -/
def members? (entry : Entry) : Option Json.Members :=
  match value? entry with
  | some (.object members) => some members
  | _ => none

/-- Something is there, but no object. -/
def isUseless (entry : Entry) : Bool :=
  entry != .missing && (members? entry).isNone

/-- The warning that an entry without an object is worth. -/
def warning (path : Text) (entry : Entry) : Notice :=
  if (value? entry).isSome then .settingsNotObject path else .settingsUnreadable path

/-- An entry that puts an end to the loading, instead of being passed over. -/
inductive Breaks : Entry → Prop where
  | notText {bytes : List UInt8} {fault : Text.Utf8.Fault}
      (h : Text.Utf8.readStrict bytes = .error fault) : Breaks (.file bytes)
  | tooManyDigits {bytes : List UInt8} {text : Text} {count : Nat}
      (htext : Text.Utf8.readStrict bytes = .ok text)
      (h : Json.read text = .error (.tooManyDigits count)) : Breaks (.file bytes)
  | refused {refusal : Refusal} : Breaks (.refused refusal)

/-- What is reported of a file that is passed over is a warning. -/
theorem level_warning (path : Text) (entry : Entry) : (warning path entry).level = .warning := by
  unfold warning
  split <;> rfl

/-- An entry that breaks the loading holds nothing. -/
theorem Breaks.value?_eq_none {entry : Entry} (h : Breaks entry) : value? entry = none := by
  cases h with
  | notText h => rw [value?, h]
  | tooManyDigits htext h =>
    rw [value?, htext]
    simp only [h]
    rfl
  | refused => rfl

section

variable {path text : Text} {bytes : List UInt8}

/-- What a file says is what its text says. -/
theorem findingOf_file (h : Text.Utf8.readStrict bytes = .ok text) :
    findingOf path (.file bytes) = findingOfText path text := by
  rw [findingOf, h]

/-- The value of a file whose bytes are a text is what is read from the text. -/
theorem value?_file (h : Text.Utf8.readStrict bytes = .ok text) :
    value? (.file bytes) = (Json.read text).toOption := by
  rw [value?, h]

/-- What an entry says that does not break the loading. -/
theorem findingOf_unbroken {entry : Entry} (h : ¬Breaks entry) :
    findingOf path entry =
      match members? entry with
      | some members => .members members
      | none => if isUseless entry then .passedOver (warning path entry) else .nothing := by
  cases entry with
  | missing => rfl
  | directory => rfl
  | unreadable => rfl
  | refused refusal => exact absurd .refused h
  | file bytes =>
    -- A file that is no text, or whose numbers are too long, breaks the loading.
    cases htext : Text.Utf8.readStrict bytes with
    | error fault => exact absurd (.notText htext) h
    | ok text =>
      rw [findingOf_file htext, isUseless, warning, members?, value?_file htext, findingOfText]
      cases hvalue : Json.read text with
      | ok value => cases value <;> rfl
      | error fault =>
        cases fault with
        | malformed => rfl
        | tooManyDigits count => exact absurd (.tooManyDigits htext hvalue) h

/-- A file that breaks off the loading does so with a fault. -/
theorem exists_fault {entry : Entry} (h : Breaks entry) (path : Text) :
    ∃ fault, findingOf path entry = .fault fault := by
  cases h with
  | notText h => exact ⟨_, by rw [findingOf, h]⟩
  | @tooManyDigits _ _ count htext h =>
    exact ⟨.tooManyDigits count, by simp only [findingOf_file htext, findingOfText, h]⟩
  | refused => exact ⟨_, rfl⟩

end

/-! ### Loading -/

/-- The warnings for the entries at some paths that hold no object. -/
def warnings (files : Files) (paths : List FilePath) : List Notice :=
  (paths.filter fun path => isUseless (files path.text)).map fun path =>
    warning path.text (files path.text)

/-- The objects that are held at some paths. -/
def objects (files : Files) (paths : List FilePath) : List Json.Members :=
  paths.filterMap fun path => members? (files path.text)

/-- Files that do not break the loading are merged where they hold objects, and
warned of where they do not. -/
theorem loadFrom_unbroken {files : Files} {paths : List FilePath}
    (h : ∀ path ∈ paths, ¬Breaks (files path.text)) (settings : Settings) :
    loadFrom files settings paths =
      ⟨warnings files paths, .ok ((objects files paths).foldl merge settings)⟩ := by
  induction paths generalizing settings with
  | nil => rfl
  | cons path rest ih =>
    obtain ⟨hpath, hrest⟩ := List.forall_mem_cons.1 h
    have hloading := ih hrest
    rw [loadFrom, findingOf_unbroken hpath]
    -- A file is merged if it holds an object, and passed over in any other case.
    cases hmembers : members? (files path.text) with
    | some members =>
      have huseless : isUseless (files path.text) = false := by simp [isUseless, hmembers]
      simp [hloading, warnings, objects, huseless, hmembers]
    | none =>
      cases huseless : isUseless (files path.text) <;>
        simp [hloading, warnings, objects, huseless, hmembers]

/-- A file that breaks the loading does so wherever it comes. -/
theorem not_succeeds_loadFrom {files : Files} {paths : List FilePath} {path : FilePath}
    (hmem : path ∈ paths) (h : Breaks (files path.text)) (settings : Settings) :
    ¬Succeeds (loadFrom files settings paths).result := by
  induction paths generalizing settings with
  | nil => nomatch hmem
  | cons first rest ih =>
    rw [loadFrom]
    rcases List.mem_cons.1 hmem with rfl | hrest
    · obtain ⟨fault, hfault⟩ := exists_fault h path.text
      simp [hfault, Succeeds]
    -- What is found in front of it can only stop the loading earlier.
    · cases hfirst : findingOf first.text (files first.text) with
      | nothing => exact ih hrest settings
      | members members => exact ih hrest (settings.merge members)
      | passedOver notice => exact ih hrest settings
      | fault fault => simp [Succeeds]

/-- What a file holds says nothing about paths. -/
theorem eq_refused_of_findingOf {path other : Text} {entry : Entry} {refusal : Refusal}
    (h : findingOf path entry = .fault (.refused refusal other)) : entry = .refused refusal := by
  cases entry with
  | missing => cases h
  | directory => cases h
  | unreadable => cases h
  | refused refusal' =>
    cases h
    rfl
  | file bytes =>
    cases htext : Text.Utf8.readStrict bytes with
    | error fault =>
      rw [findingOf, htext] at h
      cases h
    | ok text =>
      rw [findingOf_file htext, findingOfText] at h
      split at h <;> cases h

/-- A path is only refused if one of the settings files has it. -/
theorem exists_refused {files : Files} {paths : List FilePath} {settings : Settings}
    {refusal : Refusal} {path : Text}
    (h : (loadFrom files settings paths).result = .error (.refused refusal path)) :
    ∃ candidate ∈ paths, files candidate.text = .refused refusal := by
  induction paths generalizing settings with
  | nil => cases h
  | cons first rest ih =>
    -- Unless the first path is refused the fault lies behind it, whatever was merged so far.
    have hrest : ∀ settings,
        (loadFrom files settings rest).result = .error (.refused refusal path) →
        ∃ candidate ∈ first :: rest, files candidate.text = .refused refusal := by
      intro settings h
      obtain ⟨candidate, hcandidate, hrefused⟩ := ih h
      exact ⟨candidate, List.mem_cons_of_mem first hcandidate, hrefused⟩
    rw [loadFrom] at h
    cases hfinding : findingOf first.text (files first.text) with
    | nothing => exact hrest settings (by simpa only [hfinding] using h)
    | members members => exact hrest (settings.merge members) (by simpa only [hfinding] using h)
    | passedOver notice => exact hrest settings (by simpa only [hfinding] using h)
    | fault fault =>
      rw [hfinding] at h
      cases h
      exact ⟨first, List.mem_cons_self, eq_refused_of_findingOf hfinding⟩

/-- Some files are others, less entries that hold no object. -/
def Lacks (files others : Files) (paths : List FilePath) : Prop :=
  ∀ path ∈ paths, files path.text = others path.text ∨
    (files path.text = .missing ∧ isUseless (others path.text) = true)

/-- Where files are lacking only, nothing breaks off the loading that did not.
-/
theorem Lacks.breaks {files others : Files} {paths : List FilePath} (h : Lacks files others paths)
    (hothers : ∀ path ∈ paths, ¬Breaks (others path.text)) :
    ∀ path ∈ paths, ¬Breaks (files path.text) := by
  intro path hpath
  rcases h path hpath with heq | ⟨hmissing, _⟩
  · rw [heq]
    exact hothers path hpath
  · rw [hmissing]
    nofun

/-- Where files are lacking that give no object, the objects are the same. -/
theorem Lacks.objects {files others : Files} {paths : List FilePath}
    (h : Lacks files others paths) : objects files paths = Settings.objects others paths := by
  refine List.filterMap_congr fun path hpath => ?_
  rcases h path hpath with heq | ⟨hmissing, huseless⟩
  · rw [heq]
  · have hnone : members? (others path.text) = none := by
      simpa [isUseless] using And.right (by simpa [isUseless] using huseless)
    rw [hmissing, hnone]
    rfl

/-- Settings are loaded if no file breaks the loading. Then each entry that holds
no object is worth one warning, in their order, and there are no other notices.
The settings are the defaults with all objects merged into them, and they are
the same without the entries that hold none. -/
theorem load_succeeds_iff (files : Files) (project : FilePath) (named : Option Text) :
    (Succeeds (load files project named).result ↔
      ∀ path ∈ paths project named, ¬Breaks (files path.text)) ∧
    ((∀ path ∈ paths project named, ¬Breaks (files path.text)) →
      (load files project named).notices = warnings files (paths project named) ∧
      (∀ notice ∈ (load files project named).notices, notice.level = .warning) ∧
      (load files project named).result =
        .ok ((objects files (paths project named)).foldl merge default) ∧
      ∀ fewer, Lacks fewer files (paths project named) →
        (load fewer project named).result = (load files project named).result) := by
  refine ⟨⟨?_, ?_⟩, ?_⟩
  · intro hsucceeds path hpath hbreaks
    exact not_succeeds_loadFrom hpath hbreaks default hsucceeds
  · intro hunbroken
    exact ⟨_, congrArg Loading.result (loadFrom_unbroken hunbroken default)⟩
  · intro hunbroken
    have hload : load files project named = _ := loadFrom_unbroken hunbroken default
    rw [hload]
    refine ⟨rfl, ?_, rfl, ?_⟩
    · intro notice hnotice
      obtain ⟨path, _, rfl⟩ := List.mem_map.1 hnotice
      exact level_warning _ _
    -- The entries that are lacking broke nothing and held no object, so the same objects are
    -- merged.
    · intro fewer hlacks
      have hfewer : load fewer project named = _ :=
        loadFrom_unbroken (hlacks.breaks hunbroken) default
      rw [hfewer, hlacks.objects]

/-- Files of which only one is there. -/
def holding (path : Text) (entry : Entry) : Files :=
  fun other => if other = path then entry else .missing

/-- A file with an array in it is passed over with a warning. -/
theorem load_succeeds_array :
    ∃ loading,
      load (holding ".cfgview/config.json" (.file [0x5b, 0x31, 0x5d])) ⟨.relative, []⟩ none =
        loading ∧
      loading.notices = [.settingsNotObject ".cfgview/config.json"] ∧
      loading.result = .ok default := by
  have hpaths : paths ⟨.relative, []⟩ none = [projectPath ⟨.relative, []⟩] := rfl
  have hpath : (projectPath ⟨.relative, []⟩).text = ".cfgview/config.json" := by decide
  have htext : Text.Utf8.readStrict [0x5b, 0x31, 0x5d] = .ok "[1]" := by cbv
  have hvalue : value? (.file [0x5b, 0x31, 0x5d]) = some (.array [.int 1]) := by
    rw [value?_file htext]
    rfl
  -- What holds a value breaks nothing, be it an object or not.
  have hunbroken : ∀ path ∈ paths ⟨.relative, []⟩ none,
      ¬Breaks (holding ".cfgview/config.json" (.file [0x5b, 0x31, 0x5d]) path.text) := by
    intro path hmem hbreaks
    obtain rfl := List.mem_singleton.1 hmem
    rw [hpath, holding, if_pos rfl] at hbreaks
    cases hbreaks.value?_eq_none.symm.trans hvalue
  obtain ⟨hnotices, _, hresult, _⟩ := (load_succeeds_iff _ _ none).2 hunbroken
  refine ⟨_, rfl, ?_, ?_⟩
  · rw [hnotices, hpaths]
    simp [warnings, isUseless, warning, members?, holding, hpath, hvalue]
  · rw [hresult, hpaths]
    simp [objects, members?, holding, hpath, hvalue]

/-- A byte that is no UTF-8 puts an end to the loading, though the settings
would be the defaults without its file. -/
theorem not_succeeds_load_byte :
    load (holding ".cfgview/config.json" (.file [0xff])) ⟨.relative, []⟩ none =
      ⟨[], .error (.notText ⟨.badStart, 0, 0xff, 1⟩)⟩ ∧
    load (fun _ => .missing) ⟨.relative, []⟩ none = ⟨[], .ok default⟩ := by
  constructor
  · cbv
  · rfl

end Flowchart.Settings
