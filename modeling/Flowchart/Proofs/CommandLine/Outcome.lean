import Flowchart.CommandLine.Run
import Flowchart.Proofs.Builder.Limit
import Flowchart.Proofs.Layout.Numbers
import Flowchart.Proofs.Settings.Loading
import Flowchart.Proofs.Syntax.Parsed

/-!
# `Flowchart.Proofs.CommandLine.Outcome`: which settings break a run off

A run reports what the user can mend, and then it has an outcome. The settings are
meant to be of this sort, but of a settings file only its outermost value is
checked. What its members are shows when they are used: the limit when a label is
written, the style when boxes are measured and placed. A value that cannot be used
is nothing that the user is told how to mend, and the run is broken off without an
outcome.

So a run has an outcome if the paths that it asks for can be looked up and the source
be read, the limit counts as a whole number, and, where a graph is laid out, the
style has fonts that are texts and lengths that are numbers in range. The last
condition cannot be dropped: once a graph with a block is drawn, a length that is no
number breaks the run off. Where completion scripts are there to be asked for, the
script of no shell must not be, since what writes them knows shells only.

* `mem_shells_of_read`: a completion script that is asked for is that of a known shell;
* `Ends`: work comes to a result of a kind or to a failure of a kind;
* `ends_drawn`, `isEnd_laidOut`: drawing a graph, and laying it out;
* `isEnd_laidOut_of_draws`: how a layout ends in a style that may be of any kind;
* `outcome_of_run`: the outcomes of command lines, and when there is one.
-/

set_option autoImplicit false

namespace Flowchart.CommandLine

open Json (IsNumber)

/-! ### Reading -/

section

variable {shells : Option (List Text)} {shell : Text}

/-- The completion script of a shell is only asked for if the shell is known. -/
theorem mem_of_completionOf {known : List Text} {name : Text}
    (h : completionOf known name = .ok (.completion (some shell))) : shell ∈ known := by
  unfold completionOf at h
  split at h
  · cases h
  · split at h
    · rename_i hknown
      cases h
      exact List.contains_iff_mem.1 hknown
    · cases h

/-- At the end of a command line, a completion script is only asked for of a
shell that is known. -/
theorem mem_of_ending {rest : List Text} {uses : List Use}
    (h : ending shells rest uses = .ok (some (.completion (some shell)))) :
    shell ∈ shells.getD [] := by
  obtain ⟨filled, _, h⟩ := bind_eq_ok.1 h
  split at h
  · rename_i request hrequest
    obtain ⟨answer, hanswer, h⟩ := bind_eq_ok.1 h
    cases h
    obtain ⟨use, _, huse⟩ := List.exists_of_findSome?_eq_some hrequest
    -- Help and the version end the reading too, but not with a shell.
    unfold endingOf? at huse
    split at huse
    · cases huse
      cases hanswer
    · cases huse
      cases hanswer
    · cases huse
      exact mem_of_completionOf hanswer
    · cases huse
  · cases h

/-- Behind a command nobody asks for a completion script. -/
theorem readCommand_ne_completion {command : Command} {verbose : Bool}
    {strays arguments : List Text} :
    readCommand command verbose strays arguments ≠ .ok (.completion (some shell)) := by
  intro h
  obtain ⟨words, _, h⟩ := bind_eq_ok.1 h
  obtain ⟨reading, _, h⟩ := bind_eq_ok.1 h
  cases reading with
  | none => cases h
  | some reading =>
    obtain ⟨task, _, h⟩ := bind_eq_ok.1 h
    split at h <;> cases h

/-- Wherever a command line is read from, a completion script is only asked for
of a shell that is known. -/
theorem mem_of_readFrom {verbose : Bool} {strays words : List Text}
    (h : readFrom shells verbose strays words = .ok (.completion (some shell))) :
    shell ∈ shells.getD [] := by
  induction words generalizing verbose strays with
  | nil => cases h
  | cons word rest ih =>
    rw [readFrom] at h
    -- Only an option can ask for a script. Where it does not, the rest of the words decide.
    obtain ⟨kind, _, h⟩ := bind_eq_ok.1 h
    cases kind with
    | argument name =>
      dsimp only at h
      split at h
      · exact absurd h readCommand_ne_completion
      · cases h
    | separator => cases h
    | unknown text => exact ih h
    | option flag value =>
      obtain ⟨request, hrequest, h⟩ := bind_eq_ok.1 h
      cases request with
      | none => exact ih h
      | some request =>
        cases h
        exact mem_of_ending hrequest
    | cluster flag letters =>
      obtain ⟨uses, _, h⟩ := bind_eq_ok.1 h
      obtain ⟨request, hrequest, h⟩ := bind_eq_ok.1 h
      cases request with
      | none => exact ih h
      | some request =>
        cases h
        exact mem_of_ending hrequest

/-- The completion script of a shell is only asked for if the library knows the shell. -/
theorem mem_shells_of_read {arguments : List Text}
    (h : read shells arguments = .ok (.completion (some shell))) :
    ∃ known, shells = some known ∧ shell ∈ known := by
  obtain ⟨_, _, h⟩ := bind_eq_ok.1 h
  have hmem := mem_of_readFrom h
  cases shells with
  | none => cases hmem
  | some known => exact ⟨known, rfl, hmem⟩

/-- The name of a shell may be the rest of a word of short options. -/
example : read (some ["bash", "zsh"]) ["-vszsh"] = .ok (.completion (some "zsh")) := by
  decide +kernel

end

/-! ### Work that ends -/

/-- A result is of a kind, or a failure is. -/
def IsEnd {α : Type} (F : Failure → Prop) (P : α → Prop) : Except Failure α → Prop
  | .ok a => P a
  | .error failure => F failure

/-- Work ends, whatever trail it starts from: with a result of a kind, or with a
failure of a kind. -/
def Ends {α : Type} (F : Failure → Prop) (work : Work α) (P : α → Prop) : Prop :=
  ∀ trail, IsEnd F P (work.run trail).1

/-- The user can mend a failure. -/
def Mendable (failure : Failure) : Prop :=
  Succeeds failure.message

/-- A failure is that of a value that cannot be used. -/
def Fatal (failure : Failure) : Prop :=
  ∃ fault, failure = .value fault

/-- What comes next starts from the trail that was left, unless there is a
failure. -/
theorem run_bind {α β : Type} (work : Work α) (next : α → Work β) (trail : Trail) :
    (work >>= next).run trail = match work.run trail with
      | (.ok a, left) => (next a).run left
      | (.error failure, left) => (.error failure, left) := by
  change (match work.run trail with
    | (result, left) => ExceptT.bindCont next result left) = _
  obtain ⟨result, left⟩ := work.run trail
  cases result <;> rfl

/-- What comes next decides how work ends that has a result so far. -/
theorem isEnd_bind {α β : Type} {F : Failure → Prop} {Q : β → Prop} {work : Work α}
    {next : α → Work β} {trail : Trail}
    (hnext : ∀ a, (work.run trail).1 = .ok a → Ends F (next a) Q)
    (herror : ∀ failure, (work.run trail).1 = .error failure → F failure) :
    IsEnd F Q ((work >>= next).run trail).1 := by
  rw [run_bind]
  cases hrun : work.run trail with
  | mk result left =>
    rw [hrun] at hnext herror
    cases result with
    | ok a => exact hnext a rfl left
    | error failure => exact herror failure rfl

namespace Ends

variable {α β : Type} {F : Failure → Prop} {P : α → Prop} {Q : β → Prop} {work : Work α}

/-- Work that gives a result gives one of the kind. -/
theorem of_ok (h : Ends F work P) {trail : Trail} {a : α} (ha : (work.run trail).1 = .ok a) :
    P a := by
  have hend := h trail
  rwa [ha] at hend

/-- Work that fails does so in one of the ways. -/
theorem of_error (h : Ends F work P) {trail : Trail} {failure : Failure}
    (hfailure : (work.run trail).1 = .error failure) : F failure := by
  have hend := h trail
  rwa [hfailure] at hend

/-- A result that is given is what the work ends with. -/
theorem pure {a : α} (h : P a) : Ends F (Pure.pure a : Work α) P :=
  fun _ => h

/-- A failure that is thrown is what the work ends with. -/
theorem throw {failure : Failure} (h : F failure) :
    Ends F (MonadExcept.throw failure : Work α) P :=
  fun _ => h

/-- Work ends if its first part does, and what comes next does for any result of
that. -/
theorem bind {next : α → Work β} (hwork : Ends F work P) (hnext : ∀ a, P a → Ends F (next a) Q) :
    Ends F (work >>= next) Q :=
  fun _ => isEnd_bind (fun a ha => hnext a (hwork.of_ok ha)) fun _ => hwork.of_error

/-- What is left behind is no failure. -/
theorem modify (leave : Trail → Trail) :
    Ends F (MonadState.modifyGet fun trail => ((), leave trail) : Work Unit) fun _ => True :=
  fun _ => trivial

/-- A result that is taken over as work ends it, or its fault becomes a failure.
-/
theorem ofExcept {ε : Type} {failure : ε → Failure} {result : Except ε α}
    (h : ∀ fault, result = .error fault → F (failure fault)) :
    Ends F (Work.ofExcept failure result) fun a => result = .ok a := by
  cases result with
  | ok a => exact pure rfl
  | error fault => exact throw (h fault rfl)

/-- A result that is there ends work. -/
theorem ofSucceeds {ε : Type} {failure : ε → Failure} {result : Except ε α} (h : Succeeds result) :
    Ends F (Work.ofExcept failure result) fun a => result = .ok a := by
  obtain ⟨a, rfl⟩ := h
  exact pure rfl

end Ends

/-! ### What a run relies on -/

/-- What comes of loading the settings of a host. -/
def Host.settings (host : Host) : Except Settings.LoadFault Settings :=
  (Settings.load host.files host.workingDirectory host.settingsFile).result

/-- What writes completion scripts has one for each of its shells. -/
def Completion.HasScripts (completion : Completion) : Prop :=
  ∀ shells, completion.shells = some shells →
    ∀ shell ∈ shells, Succeeds (completion.script (some shell))

/-- A parser names all kinds. -/
def NamesKinds (parser : Parsing.Parser) : Prop :=
  ∀ grammar source, (parser.read grammar source).tree.KindsNamed

/-- Files can be looked up under the paths of a target and of the settings, and a file
that is the target can be read. -/
structure Finds (host : Host) (target : Target) : Prop where
  file : ∀ refusal, host.files target.file ≠ .refused refusal
  readable : host.files target.file ≠ .unreadable
  settings : ∀ path ∈ Settings.paths host.workingDirectory host.settingsFile,
    ∀ refusal, host.files path.text ≠ .refused refusal

/-- The settings that are loaded limit labels to a whole number, or to a truth
value, which counts as one. -/
def LimitsLabels (host : Host) : Prop :=
  ∀ settings, host.settings = .ok settings →
    ∃ n, settings.summaryLimit.scalar? = some (.int n)

/-- A run comes to draw a graph of a target. -/
def Draws (host : Host) (target : Target) (settings : Settings) (graph : Graph) : Prop :=
  ((drawn host target).run ⟨[], []⟩).1 = .ok (settings, graph)

/-- The settings have a style that can be used for as many boxes as the graph of
a target has blocks. -/
def StylesGraph (host : Host) (target : Target) : Prop :=
  ∀ settings graph, Draws host target settings graph →
    ∃ style, settings.style = .ok style ∧ style.Usable graph.blocks.length

/-- The settings of a host can be used for a task. -/
def Suits (host : Host) : Task → Prop
  | .tables => True
  | .graph target => Finds host target ∧ LimitsLabels host
  | .layout target => Finds host target ∧ LimitsLabels host ∧ StylesGraph host target

/-! ### Tasks -/

section

variable {host : Host} {target : Target}

/-- To read the source of a target ends, in a way that can be mended. -/
theorem ends_sourceOf (h : Finds host target) :
    Ends Mendable (sourceOf host target.file) fun _ => True := by
  unfold sourceOf
  split
  · exact .throw ⟨_, rfl⟩
  · exact .throw ⟨_, rfl⟩
  · rename_i hunreadable
    exact absurd hunreadable h.readable
  · rename_i refusal hrefused
    exact absurd hrefused (h.file refusal)
  · exact .pure trivial

/-- To load the settings ends so, with what the loading gives. -/
theorem ends_settingsOf (h : Finds host target) :
    Ends Mendable (settingsOf host) fun settings => host.settings = .ok settings := by
  refine (Ends.modify _).bind fun _ _ => .ofExcept fun fault hfault => ?_
  cases fault with
  | notText fault => exact ⟨_, rfl⟩
  | tooManyDigits count => exact ⟨_, rfl⟩
  | refused refusal path =>
    obtain ⟨candidate, hcandidate, hrefused⟩ := Settings.exists_refused hfault
    exact absurd hrefused (h.settings candidate hcandidate refusal)

/-- To parse a source ends so, with a tree whose kinds are names. -/
theorem ends_treeOf (h : NamesKinds host.parser) (language : Language) (source : Text) :
    Ends Mendable (treeOf host language source) SyntaxTree.KindsNamed := by
  refine (Ends.ofExcept fun _ _ => ⟨_, rfl⟩).bind ?_
  rintro ⟨grammar, tree, notices⟩ hparse
  have hnamed : tree.KindsNamed := by
    obtain ⟨read, _, hparse⟩ := bind_eq_ok.1 hparse
    obtain ⟨_, _, hparse⟩ := bind_eq_ok.1 hparse
    cases hparse
    exact ParsedTree.kindsNamed_toSyntax (h grammar source)
  refine (Ends.modify _).bind fun _ _ => ?_
  exact (Ends.modify _).bind fun _ _ => .pure hnamed

/-- A graph is drawn with the settings, and as a diagram it has boxes with texts. -/
theorem ends_drawn (hnames : NamesKinds host.parser) (hfinds : Finds host target)
    (hlimit : LimitsLabels host) :
    Ends Mendable (drawn host target) fun drawing =>
      host.settings = .ok drawing.1 ∧ ∀ box ∈ drawing.2.diagram.boxes, Layout.Textual box := by
  refine (ends_sourceOf hfinds).bind fun source _ => ?_
  refine (ends_settingsOf hfinds).bind fun settings hsettings => ?_
  refine (ends_treeOf hnames _ source).bind fun tree hnamed => ?_
  refine (Ends.ofExcept fun _ _ => ⟨_, rfl⟩).bind fun encoded _ => ?_
  -- All that fails up to here can be mended, and the limit keeps the rest from failing.
  obtain ⟨n, hn⟩ := hlimit settings hsettings
  obtain ⟨notices, hbuild⟩ := Builder.build_of_whole hn hnamed encoded KindTable.default
  refine (Ends.ofSucceeds ⟨_, hbuild⟩).bind ?_
  rintro ⟨graph, notices'⟩ hgraph
  refine (Ends.modify _).bind fun _ _ => .pure ⟨hsettings, ?_⟩
  cases hbuild.symm.trans hgraph
  intro box hbox
  obtain ⟨block, hblock, rfl⟩ := List.mem_map.1 hbox
  obtain ⟨line, hline⟩ := statements_graphOf block hblock
  exact ⟨⟨block.label, rfl⟩, line, by rw [Block.box, hline, List.map_singleton]⟩

/-- The settings that a graph is drawn with are those that were loaded. -/
theorem Draws.settings_eq (hnames : NamesKinds host.parser) (hfinds : Finds host target)
    (hlimit : LimitsLabels host) {settings : Settings} {graph : Graph}
    (h : Draws host target settings graph) : host.settings = .ok settings :=
  ((ends_drawn hnames hfinds hlimit).of_ok h).1

/-- A graph is laid out in a style that can be used for it. -/
theorem isEnd_laidOut (hnames : NamesKinds host.parser) (hfinds : Finds host target)
    (hlimit : LimitsLabels host) (hstyles : StylesGraph host target) :
    IsEnd Mendable (fun _ => True) ((laidOut host target).run ⟨[], []⟩).1 := by
  have hdrawn := ends_drawn hnames hfinds hlimit
  refine isEnd_bind ?_ fun _ => hdrawn.of_error
  rintro ⟨settings, graph⟩ hdraws
  obtain ⟨_, htextual⟩ := hdrawn.of_ok hdraws
  -- How long the sums of a layout get is known once the graph is.
  obtain ⟨style, hstyle, husable⟩ := hstyles settings graph hdraws
  refine (Ends.ofSucceeds ⟨style, hstyle⟩).bind fun used hused => ?_
  cases hstyle.symm.trans hused
  obtain ⟨bound, hlengths, hbound⟩ := husable.lengths
  have hlength : graph.diagram.boxes.length = graph.blocks.length := List.length_map _
  have hrange : Layout.FitsRange bound graph.diagram.boxes.length :=
    Layout.fitsRange (by rwa [hlength])
  have hplace := Layout.place_inRange husable.font husable.smallFont hlengths hrange htextual
  refine (Ends.ofSucceeds hplace.succeeds).bind fun placed hplaced => ?_
  have hinRange := hplace.of_eq hplaced
  refine (Ends.modify _).bind fun _ _ => ?_
  refine (Ends.ofSucceeds (Layout.bounds_succeeds hrange hinRange)).bind fun extent _ => ?_
  have hback := Layout.backEdges_succeeds hinRange graph.diagram.arrows
  refine (Ends.ofSucceeds hback).bind fun backEdges _ => ?_
  exact (Ends.modify _).bind fun _ _ => .pure trivial

/-- Once a graph with a block is drawn, it is laid out only in a style with numbers
for lengths, and what fails cannot be mended. -/
theorem isEnd_laidOut_of_draws (hnames : NamesKinds host.parser) (hfinds : Finds host target)
    (hlimit : LimitsLabels host) {settings : Settings} {graph : Graph}
    (hdraws : Draws host target settings graph) (hne : graph.blocks ≠ []) :
    IsEnd Fatal (fun _ => ∃ style, settings.style = .ok style ∧ style.Lengths IsNumber)
      ((laidOut host target).run ⟨[], []⟩).1 := by
  obtain ⟨_, htextual⟩ := (ends_drawn hnames hfinds hlimit).of_ok hdraws
  have hboxes : graph.diagram.boxes ≠ [] := by simpa [Graph.diagram] using hne
  have hlines : ∀ box ∈ graph.diagram.boxes, box.lines ≠ [] := by
    intro box hbox
    obtain ⟨line, hline⟩ := (htextual box hbox).lines
    rw [hline]
    exact List.cons_ne_nil _ _
  refine isEnd_bind ?_ fun _ hfailure => nomatch hdraws.symm.trans hfailure
  intro drawing hdrawing
  cases hdraws.symm.trans hdrawing
  -- From here on only values fail.
  refine (Ends.ofExcept fun fault _ => ⟨fault, rfl⟩).bind fun style hstyle => ?_
  refine (Ends.ofExcept fun fault _ => ⟨fault, rfl⟩).bind fun placed hplaced => ?_
  have hnumbers := Layout.isNumber_of_place hplaced hboxes hlines
  refine (Ends.modify _).bind fun _ _ => ?_
  refine (Ends.ofExcept fun fault _ => ⟨fault, rfl⟩).bind fun extent _ => ?_
  refine (Ends.ofExcept fun fault _ => ⟨fault, rfl⟩).bind fun backEdges _ => ?_
  exact (Ends.modify _).bind fun _ _ => .pure ⟨style, hstyle, hnumbers⟩

/-- A fatal failure cannot be mended. -/
theorem Fatal.not_mendable {failure : Failure} (h : Fatal failure) : ¬Mendable failure := by
  obtain ⟨fault, rfl⟩ := h
  rintro ⟨message, hmessage⟩
  cases hmessage

/-- A graph with a block breaks a layout off in a style with other lengths. -/
theorem not_isEnd_perform (hnames : NamesKinds host.parser) (hfinds : Finds host target)
    (hlimit : LimitsLabels host) {settings : Settings} {graph : Graph} {style : Style Json}
    (hdraws : Draws host target settings graph) (hne : graph.blocks ≠ [])
    (hstyle : settings.style = .ok style) (hlengths : ¬style.Lengths IsNumber) :
    ¬IsEnd Mendable (fun _ => True) ((perform host (.layout target)).run ⟨[], []⟩).1 := by
  intro hend
  have hlaidOut := isEnd_laidOut_of_draws hnames hfinds hlimit hdraws hne
  rw [perform, run_bind] at hend
  cases hrun : (laidOut host target).run ⟨[], []⟩ with
  | mk result left =>
    rw [hrun] at hend hlaidOut
    cases result with
    | ok report =>
      obtain ⟨used, hused, hnumbers⟩ := hlaidOut
      cases hstyle.symm.trans hused
      exact hlengths hnumbers
    -- The same failure would have to be fatal and one to mend.
    | error failure => exact hlaidOut.not_mendable hend

/-- A task ends if the settings can be used for it. -/
theorem isEnd_perform (hnames : NamesKinds host.parser) {task : Task} (h : Suits host task) :
    IsEnd Mendable (fun _ => True) ((perform host task).run ⟨[], []⟩).1 := by
  cases task with
  | tables => trivial
  | graph target =>
    obtain ⟨hfinds, hlimit⟩ := h
    exact (ends_drawn hnames hfinds hlimit).bind (fun _ _ => .pure trivial) ⟨[], []⟩
  | layout target =>
    obtain ⟨hfinds, hlimit, hstyles⟩ := h
    have hend := isEnd_laidOut hnames hfinds hlimit hstyles
    refine isEnd_bind (fun _ _ => .pure trivial) fun failure hfailure => ?_
    rwa [hfailure] at hend

end

/-! ### Outcomes -/

/-- A task has an outcome if it does not fail in a way that cannot be mended. -/
theorem runTask_succeeds_iff {host : Host} {verbose : Bool} {task : Task} :
    Succeeds (runTask host verbose task) ↔
      IsEnd Mendable (fun _ => True) ((perform host task).run ⟨[], []⟩).1 := by
  unfold runTask
  cases (perform host task).run ⟨[], []⟩ with
  | mk result trail =>
    cases result with
    | ok output => exact ⟨fun _ => trivial, fun _ => ⟨_, rfl⟩⟩
    | error failure =>
      constructor
      · rintro ⟨outcome, h⟩
        obtain ⟨message, hmessage, _⟩ := bind_eq_ok.1 h
        exact ⟨message, hmessage⟩
      · rintro ⟨message, hmessage⟩
        exact ⟨_, bind_eq_ok.2 ⟨message, hmessage, rfl⟩⟩

/-- A failure is explained on a line behind those of the notices. -/
def Outcome.Explains (outcome : Outcome) : Prop :=
  ∃ verbose notices message,
    outcome.errors = noticeLines verbose notices ++ "Error: " ++ message ++ "\n"

/-- A task has exit code 0, or 1 and an explanation. -/
theorem code_of_runTask {host : Host} {verbose : Bool} {task : Task} {outcome : Outcome}
    (h : runTask host verbose task = .ok outcome) :
    outcome.code ≤ 1 ∧ (outcome.code = 1 → outcome.Explains) := by
  unfold runTask at h
  cases hrun : (perform host task).run ⟨[], []⟩ with
  | mk result trail =>
    rw [hrun] at h
    cases result with
    | ok output =>
      cases h
      exact ⟨Nat.zero_le 1, nofun⟩
    | error failure =>
      obtain ⟨message, _, h⟩ := bind_eq_ok.1 h
      cases h
      exact ⟨le_refl 1, fun _ => ⟨verbose, trail.notices, message, rfl⟩⟩

/-- A completion script is an outcome if it is that of a shell that is known. -/
theorem runCompletion_succeeds {completion : Completion} (hscripts : completion.HasScripts)
    {arguments : List Text} {shell : Text}
    (hread : read completion.shells arguments = .ok (.completion (some shell))) :
    Succeeds (runCompletion completion (some shell)) := by
  obtain ⟨known, hknown, hmem⟩ := mem_shells_of_read hread
  obtain ⟨script, hscript⟩ := hscripts known hknown shell hmem
  exact ⟨_, by rw [runCompletion, hscript]; rfl⟩

/-- An exit code is one of three, and with exit code 1 there is an explanation. If
the settings can be used for the task of a command line, it has an outcome, unless it
asks for the completion script of no shell. But once a graph with a block is drawn to
be laid out, and a length of the style is no number, it has none. -/
theorem outcome_of_run (host : Host) (arguments : List Text) :
    (∀ outcome, run host arguments = .ok outcome →
      outcome.code ≤ 2 ∧ (outcome.code = 1 → outcome.Explains)) ∧
    (NamesKinds host.parser → host.completion.HasScripts →
      (read host.completion.shells arguments ≠ .ok (.completion none) →
        (∀ verbose task, read host.completion.shells arguments = .ok (.run verbose task) →
          Suits host task) →
        Succeeds (run host arguments)) ∧
      ∀ verbose target settings graph style,
        read host.completion.shells arguments = .ok (.run verbose (.layout target)) →
        Finds host target → LimitsLabels host → Draws host target settings graph →
        graph.blocks ≠ [] → settings.style = .ok style → ¬style.Lengths IsNumber →
        ¬Succeeds (run host arguments)) := by
  refine ⟨?_, fun hnames hscripts => ⟨?_, ?_⟩⟩
  -- What was asked for decides: a usage fault has code 2, help and scripts have code 0.
  · intro outcome houtcome
    unfold run at houtcome
    split at houtcome
    · cases houtcome
      exact ⟨le_refl 2, nofun⟩
    · cases houtcome
      exact ⟨Nat.zero_le 2, nofun⟩
    · cases houtcome
      exact ⟨Nat.zero_le 2, nofun⟩
    · obtain ⟨script, _, houtcome⟩ := bind_eq_ok.1 houtcome
      cases houtcome
      exact ⟨Nat.zero_le 2, nofun⟩
    · obtain ⟨hcode, hexplains⟩ := code_of_runTask houtcome
      exact ⟨hcode.trans (by decide), hexplains⟩
  · intro hshell hsuits
    unfold run
    split
    · exact ⟨_, rfl⟩
    · exact ⟨_, rfl⟩
    · exact ⟨_, rfl⟩
    · rename_i shell hread
      cases shell with
      | none => exact absurd hread hshell
      | some shell => exact runCompletion_succeeds hscripts hread
    · rename_i verbose task hread
      exact runTask_succeeds_iff.2 (isEnd_perform hnames (hsuits verbose task hread))
  · intro verbose target settings graph style hread hfinds hlimit hdraws hne hstyle hlengths
      hsucceeds
    have hrun : run host arguments = runTask host verbose (.layout target) := by
      rw [run, hread]
    rw [hrun, runTask_succeeds_iff] at hsucceeds
    exact not_isEnd_perform hnames hfinds hlimit hdraws hne hstyle hlengths hsucceeds

/-- A module of one statement. -/
def oneStatement : ParsedTree :=
  .node ⟨.string "module", 0, 5, (0, 0), (0, 5), true, 1⟩
    [.node ⟨.string "expression_statement", 0, 5, (0, 0), (0, 5), true, 0⟩ []]

/-- What writes completion scripts for three shells, and nothing for no shell. -/
def threeShells : Completion where
  shells := some ["bash", "zsh", "tcsh"]
  script
    | some shell => .ok ("# completion of cfgview for " ++ shell)
    | none => .error "unhashable type: 'list'"

/-- A host with a file of one statement, and with a settings file. -/
def oneFile (settings : Entry) : Host where
  files path :=
    if path = "a.py" then .file [0x72, 0x75, 0x6e, 0x28, 0x29]
    else if path = ".cfgview/config.json" then settings else .missing
  workingDirectory := ⟨.relative, []⟩
  settingsFile := none
  parser := ⟨⟨true, ["tree_sitter_python"]⟩, fun _ _ => ⟨oneStatement, false⟩⟩
  completion := threeShells

/-- The bytes of a settings file with a text as a gap. -/
def textAsGap : List UInt8 :=
  [0x7b, 0x22, 0x6c, 0x61, 0x79, 0x6f, 0x75, 0x74, 0x22, 0x3a, 0x7b, 0x22, 0x67, 0x61, 0x70, 0x5f,
    0x78, 0x22, 0x3a, 0x22, 0x61, 0x22, 0x7d, 0x7d]

/-- The parser of the host names all kinds. -/
theorem namesKinds_oneFile (settings : Entry) : NamesKinds (oneFile settings).parser := by
  intro _ _ t ht
  rcases List.mem_cons.1 ht with rfl | ht
  · exact ⟨_, rfl⟩
  · obtain rfl := List.mem_singleton.1 ht
    exact ⟨_, rfl⟩

/-- The host has a script for each of its shells. -/
theorem hasScripts_oneFile (settings : Entry) : (oneFile settings).completion.HasScripts :=
  fun _ _ _ _ => ⟨_, rfl⟩

/-- The host finds the file, and the settings if they can be looked up. -/
theorem finds_oneFile {settings : Entry} (h : ∀ refusal, settings ≠ .refused refusal) :
    Finds (oneFile settings) ⟨"a.py", none⟩ := by
  refine ⟨nofun, nofun, fun path hpath => ?_⟩
  obtain rfl := List.mem_singleton.1 hpath
  exact h

/-- How many blocks the graph of a target has that a run comes to draw. -/
def blockCount (host : Host) (target : Target) : Option Nat :=
  ((drawn host target).run ⟨[], []⟩).1.toOption.map fun drawing => drawing.2.blocks.length

/-- Where the blocks of a graph can be counted, the graph is drawn. -/
theorem exists_draws {host : Host} {target : Target} {count : Nat}
    (h : blockCount host target = some count) :
    ∃ settings graph, Draws host target settings graph := by
  unfold blockCount at h
  cases hrun : ((drawn host target).run ⟨[], []⟩).1 with
  | ok drawing => exact ⟨drawing.1, drawing.2, hrun⟩
  | error failure =>
    rw [hrun] at h
    cases h

/-- The graph that is drawn has as many blocks as were counted. -/
theorem Draws.length_blocks {host : Host} {target : Target} {settings : Settings} {graph : Graph}
    {count : Nat} (h : Draws host target settings graph)
    (hcount : blockCount host target = some count) : graph.blocks.length = count := by
  rw [blockCount, h] at hcount
  exact Option.some.inj hcount

/-- The settings with a text as a gap. -/
def textGapSettings : Settings :=
  Settings.default.merge [("layout", .object [("gap_x", .string "a")])]

/-- The settings of the host have a text for the gap between boxes. -/
theorem settings_textAsGap : (oneFile (.file textAsGap)).settings = .ok textGapSettings := by
  have htext : Text.Utf8.readStrict textAsGap =
      .ok "\x7b\"layout\":\x7b\"gap_x\":\"a\"\x7d\x7d" := by cbv
  have hvalue : Json.read "\x7b\"layout\":\x7b\"gap_x\":\"a\"\x7d\x7d" =
      .ok (.object [("layout", .object [("gap_x", .string "a")])]) := rfl
  have hfinding : Settings.findingOf ".cfgview/config.json" (.file textAsGap) =
      .members [("layout", .object [("gap_x", .string "a")])] := by
    rw [Settings.findingOf_file htext, Settings.findingOfText, hvalue]
  have hpaths : Settings.paths ⟨.relative, []⟩ none = [Settings.projectPath ⟨.relative, []⟩] := rfl
  have hpath : (Settings.projectPath ⟨.relative, []⟩).text = ".cfgview/config.json" := by decide
  have hfile : (oneFile (.file textAsGap)).files ".cfgview/config.json" = .file textAsGap := rfl
  rw [Host.settings, Settings.load]
  -- Stated with the paths in sight, so that they can be rewritten.
  change (Settings.loadFrom _ _ (Settings.paths ⟨.relative, []⟩ none)).result = _
  rw [hpaths, Settings.loadFrom, hpath, hfile, hfinding]
  rfl

/-- Without a settings file one statement is laid out. With a text as a gap it is
drawn, but not laid out. -/
theorem outcome_of_run_oneFile :
    Succeeds (run (oneFile .missing) ["layout", "a.py"]) ∧
      ¬Succeeds (run (oneFile (.file textAsGap)) ["layout", "a.py"]) := by
  have hread : read threeShells.shells ["layout", "a.py"] =
      .ok (.run false (.layout ⟨"a.py", none⟩)) := by
    decide +kernel
  constructor
  -- Without a settings file the defaults are loaded, and their lengths are numbers.
  · have hfinds : Finds (oneFile .missing) ⟨"a.py", none⟩ := finds_oneFile nofun
    have hloaded : (oneFile .missing).settings = .ok .default := rfl
    have hlimit : LimitsLabels (oneFile .missing) := by
      intro settings hsettings
      obtain rfl := Except.ok.inj (hloaded.symm.trans hsettings)
      exact ⟨48, rfl⟩
    have hcount : blockCount (oneFile .missing) ⟨"a.py", none⟩ = some 2 := by decide +kernel
    refine ((outcome_of_run _ _).2 (namesKinds_oneFile _) (hasScripts_oneFile _)).1 ?_ ?_
    · intro hcompletion
      cases hread.symm.trans hcompletion
    intro verbose task htask
    cases hread.symm.trans htask
    refine ⟨hfinds, hlimit, fun settings graph hdraws => ?_⟩
    have hsettings := hdraws.settings_eq (namesKinds_oneFile _) hfinds hlimit
    obtain rfl := Except.ok.inj (hloaded.symm.trans hsettings)
    refine ⟨Style.default, rfl, Style.usable_default ?_⟩
    rw [hdraws.length_blocks hcount]
    decide
  -- The settings file is fine for drawing, but its gap is no number.
  · have hfinds : Finds (oneFile (.file textAsGap)) ⟨"a.py", none⟩ := finds_oneFile nofun
    have hlimit : LimitsLabels (oneFile (.file textAsGap)) := by
      intro settings hsettings
      obtain rfl := Except.ok.inj (settings_textAsGap.symm.trans hsettings)
      exact ⟨48, rfl⟩
    have hcount : blockCount (oneFile (.file textAsGap)) ⟨"a.py", none⟩ = some 2 := by
      decide +kernel
    obtain ⟨settings, graph, hdraws⟩ := exists_draws hcount
    have hsettings := hdraws.settings_eq (namesKinds_oneFile _) hfinds hlimit
    obtain rfl := Except.ok.inj (settings_textAsGap.symm.trans hsettings)
    have hne : graph.blocks ≠ [] :=
      List.ne_nil_of_length_pos (by rw [hdraws.length_blocks hcount]; decide)
    have hstyle : textGapSettings.style = .ok { Style.default with gapX := .string "a" } := rfl
    refine ((outcome_of_run _ _).2 (namesKinds_oneFile _) (hasScripts_oneFile _)).2 false
      ⟨"a.py", none⟩ _ graph _ hread hfinds hlimit hdraws hne hstyle ?_
    rintro ⟨_, _, _, _, ⟨gap, hgap⟩, _⟩
    cases hgap

/-- The bytes of a settings file with a text as the limit of labels. -/
def textAsLimit : List UInt8 :=
  [0x7b, 0x22, 0x73, 0x75, 0x6d, 0x6d, 0x61, 0x72, 0x79, 0x5f, 0x6d, 0x61, 0x78, 0x22, 0x3a, 0x22,
    0x61, 0x22, 0x7d]

/-- A text as the limit of labels breaks the drawing of one statement off. -/
theorem run_textAsLimit :
    run (oneFile (.file textAsLimit)) ["cfg", "a.py"] =
      .error (.value (.incomparable .greater "int" "str")) := by
  have hcode : (run (oneFile (.file textAsLimit)) ["cfg", "a.py"]).map Outcome.code =
      .error (.value (.incomparable .greater "int" "str")) := by
    decide +kernel
  cases hrun : run (oneFile (.file textAsLimit)) ["cfg", "a.py"] with
  | ok outcome =>
    rw [hrun] at hcode
    cases hcode
  | error cause =>
    rw [hrun] at hcode
    cases hcode
    rfl

end Flowchart.CommandLine
