import Flowchart.Proofs.Draft.Faultless

/-!
# `Flowchart.Proofs.Builder.Limit`: labels in the limit that the settings set

The limit of labels is any value of the settings. Texts are cut to the number that
it counts as, so a truth value is a limit of one or of none. With a limit that
counts as a whole number, the graph of a tree of named kinds is built, and it is
the graph that the number gives.

Whatever the limit, a block has a label and one line below it.

* `build_of_whole`: the graph of a tree is built with such a limit;
* `eq_graphOf_of_build`: whatever tree a graph is built of with such a limit, it
  is the one that the number gives;
* `statements_graphOf`: the lines of the blocks of a graph.
-/

set_option autoImplicit false

namespace Flowchart

namespace Draft

/-- Writing only asks the limit what to cut. -/
theorem writeLog_congr {limit other : Json} (h : Text.shortenBy limit = Text.shortenBy other)
    (source : Source) (written : Written) (log : List Event) :
    writeLog source limit written log = writeLog source other written log := by
  induction log generalizing written with
  | nil => rfl
  | cons event rest ih =>
    cases event with
    | block block => simp only [writeLog, h, ih]
    | edge edge => simp only [writeLog, ih]
    | cut node => simp only [writeLog, h, ih]
    | failed fault => rfl

/-- A log that is written to its end holds nothing that failed. -/
theorem notFailed_of_writeLog {source : Source} {limit : Json} {before after : Written}
    {log : List Event} (h : writeLog source limit before log = (after, none)) :
    ∀ fault, .failed fault ∉ log := by
  induction log generalizing before with
  | nil => exact fun _ => List.not_mem_nil
  | cons event rest ih =>
    -- Each event was written, and so was what comes behind it.
    suffices (∀ fault, .failed fault ≠ event) ∧ ∀ fault, .failed fault ∉ rest by
      intro fault
      exact List.not_mem_cons_of_ne_of_not_mem (this.1 fault) (this.2 fault)
    cases event with
    | block block =>
      rw [writeLog] at h
      split at h
      · exact ⟨by simp, ih h⟩
      · cases h
    | edge edge => exact ⟨by simp, ih h⟩
    | cut node =>
      rw [writeLog] at h
      split at h
      · exact ⟨by simp, ih h⟩
      · cases h
    | failed fault => cases h

/-- A block lists one line below its label. -/
theorem statements_writeWithin (source : Source) (n : Int) (block : Block) :
    ∃ line, (block.writeWithin source n).statements = [line] := by
  obtain ⟨number, kind, node, path, caption⟩ := block
  cases caption with
  | branch condition => cases condition <;> exact ⟨_, rfl⟩
  | loop word condition => cases condition <;> exact ⟨_, rfl⟩
  | whole => exact ⟨_, rfl⟩
  | choice => exact ⟨_, rfl⟩
  | function name => exact ⟨_, rfl⟩
  | fixed text => exact ⟨_, rfl⟩

end Draft

/-- A block of a graph has one line below its label. -/
theorem statements_graphOf {table : KindTable} {source : Source} {n : Int} {tree : SyntaxTree} :
    ∀ block ∈ (graphOf table source n tree).blocks, ∃ line, block.statements = [line] := by
  intro block hblock
  obtain ⟨drafted, _, rfl⟩ := List.mem_map.1 hblock
  exact Draft.statements_writeWithin source n drafted

namespace Builder

/-- A value that counts as a whole number is as good a limit as the number. -/
theorem shortenBy_of_whole {limit : Json} {n : Int} (h : limit.scalar? = some (.int n)) :
    Text.shortenBy limit = Text.shortenBy (.int n) := by
  funext text
  simp only [Text.shortenBy, h]
  rfl

/-- Limits that cut all texts alike build the same. -/
theorem build_congr {limit other : Json} (h : Text.shortenBy limit = Text.shortenBy other)
    (source : Source) (table : KindTable) (tree : SyntaxTree) :
    ((new source table limit).build tree).2 = ((new source table other).build tree).2 := by
  simp only [build, new, Draft.writeLog_congr h]
  split
  · rfl
  · split <;> rfl

/-- With a limit that counts as a whole number, the graph of a tree of named kinds
is built. -/
theorem build_of_whole {limit : Json} {n : Int} {tree : SyntaxTree}
    (hlimit : limit.scalar? = some (.int n)) (hnamed : tree.KindsNamed) (source : Source)
    (table : KindTable) :
    ∃ notices, ((new source table limit).build tree).2 =
      .ok (graphOf table source n tree, notices) := by
  rw [build_congr (shortenBy_of_whole hlimit)]
  exact (new source table (.int n)).build_of_named rfl hnamed

/-- What is built with a limit that counts as a whole number is the graph that the
number gives. -/
theorem eq_graphOf_of_build {builder : Builder} {n : Int} {tree : SyntaxTree} {graph : Graph}
    {notices : List Notice} (hlimit : builder.limit.scalar? = some (.int n))
    (h : (builder.build tree).2 = .ok (graph, notices)) :
    graph = graphOf builder.table builder.source n tree := by
  -- A truth value cuts as the whole number does that it counts as.
  have hwhole : ((new builder.source builder.table (.int n)).build tree).2 =
      .ok (graph, notices) :=
    (build_congr (shortenBy_of_whole hlimit) builder.source builder.table tree).symm.trans h
  cases hmark : builder.table.markRefusal? (builder.table.mark tree) with
  | some kind => simp [build, hmark] at h
  | none =>
    simp only [build, hmark] at h
    split at h
    · cases h
    · rename_i hwritten
      have hgraph := (new builder.source builder.table (.int n)).build_eq_graphOf n tree rfl hmark
        (Draft.notFailed_of_writeLog hwritten)
      rw [hwhole] at hgraph
      exact Except.ok.inj hgraph

end Builder

end Flowchart
