import Flowchart.Proofs.Builder.Ledger
import Flowchart.Proofs.Builder.Limit
import Flowchart.Proofs.Text.Line

/-!
# `Flowchart.Proofs.Builder.Labels`: short single lines

A layout gives every line of a block the same height, so no text in a graph may
have a line break in it. None has, whatever bytes a node covers and in whichever
order its ends stand: texts of the source only get into a graph as headlines.

How long a label is follows from the kind of its block. The limit of the
settings bounds what is cut to it, with a fixed word in front of some labels.
Names of functions, lines of choices and labels of edges have limits of their
own. A limit below two is no bound, since the mark of a cut alone is two long.

* `Block.Lined`, `Edge.Lined`: the texts of a block or of an edge are short
  single lines;
* `lined_of_shows`: what a request shows becomes such texts;
* `lined_of_build`: so are all the texts of a graph.
-/

set_option autoImplicit false

namespace Flowchart

open Text

/-- How long the label of a block can be, by its kind and the limit of the
settings. -/
def BlockKind.labelLimit (n : Int) : BlockKind → Int
  | .statement | .terminator => n
  | .branch => max 12 (n + 3)
  | .loop => n + 6
  | .entry => 27
  | .exit => 3
  | .choice => 5

/-- The texts of a block are short single lines. There is one line below the
label, and it is the label once more, but for a choice. -/
structure Block.Lined (n : Int) (block : Block) : Prop where
  label : ShortLine (block.kind.labelLimit n) block.label
  repeated : block.kind ≠ .choice → block.statements = [block.label]
  choice : block.kind = .choice → ∃ line, block.statements = [line] ∧ ShortLine 32 line

/-- The label of an edge is a short single line, if there is one. -/
def Edge.Lined (edge : Edge) : Prop :=
  ∀ label ∈ edge.label, ShortLine 24 label

/-- No line of a block has a line break in it. -/
theorem Block.Lined.isLine {n : Int} {block : Block} (h : block.Lined n) :
    ∀ line ∈ block.statements, IsLine line := by
  intro line hline
  by_cases hchoice : block.kind = .choice
  · obtain ⟨only, honly, hshort⟩ := h.choice hchoice
    rw [honly] at hline
    exact List.mem_singleton.1 hline ▸ hshort.line
  · rw [h.repeated hchoice] at hline
    exact List.mem_singleton.1 hline ▸ h.label.line

namespace Draft

variable {n : Int}

/-- The word for a loop is a short line. -/
theorem shortLine_loopWord (kind : Json) :
    ShortLine 5 ((Request.loopWord? kind).getD []) := by
  unfold Request.loopWord?
  split
  · split
    · decide
    · split <;> decide
  · decide

/-- A block that repeats its label below it. -/
theorem lined_of_label {block : Flowchart.Block} (hkind : block.kind ≠ .choice)
    (hlabel : ShortLine (block.kind.labelLimit n) block.label)
    (hstatements : block.statements = [block.label]) : block.Lined n :=
  ⟨hlabel, fun _ => hstatements, fun h => absurd h hkind⟩

/-- What a request shows is written as short single lines. -/
theorem lined_of_shows {table : KindTable} {r : Request} (hn : 2 ≤ n) {block : Block}
    (h : r.Shows table block.kind block.caption) (source : Source) :
    (block.writeWithin source n).Lined n := by
  have hshort (node : NodeInfo) : ShortLine n (shorten n (source.textOf node)) :=
    shortLine_shorten hn _
  obtain ⟨number, kind, node, path, caption⟩ := block
  cases h with
  | statement _ | terminator _ => exact lined_of_label nofun (hshort node) rfl
  | branch _ =>
    cases infoOf (r.tree.condition? table) with
    | none =>
      have hlabel : ShortLine 12 ("if condition" : Text) := by decide
      exact lined_of_label nofun (hlabel.mono (le_max_left _ _)) rfl
    | some condition =>
      have hlabel := (by decide : ShortLine 3 ("if " : Text)).append (hshort condition)
      refine lined_of_label nofun (hlabel.mono ?_) rfl
      exact (Int.add_comm 3 n).le.trans (le_max_right _ _)
  | loop _ =>
    have hword := shortLine_loopWord r.tree.label.kind
    have hbound : 5 ≤ n + 6 := by omega
    cases infoOf (r.tree.condition? table) with
    | none => exact lined_of_label nofun (hword.mono hbound) rfl
    | some condition =>
      -- Without a text there is no blank behind the word.
      refine lined_of_label nofun ?_ rfl
      show ShortLine (n + 6) (if (shorten n (source.textOf condition)).isEmpty then
        (Request.loopWord? r.tree.label.kind).getD [] else
        (Request.loopWord? r.tree.label.kind).getD [] ++ " " ++ shorten n (source.textOf condition))
      split
      · exact hword.mono hbound
      · have hblank : ShortLine 1 (" " : Text) := by decide
        exact ((hword.append hblank).append (hshort condition)).mono (by omega)
  | choice _ =>
    refine ⟨(by decide : ShortLine 5 ("match" : Text)), fun h => absurd rfl h, fun _ => ?_⟩
    exact ⟨_, rfl, shortLine_shorten (by decide) _⟩
  | entry _ =>
    cases infoOf (r.tree.name? table) with
    | none => exact lined_of_label nofun (by decide : ShortLine 27 ("fn" : Text)) rfl
    | some name =>
      have hword : ShortLine 3 ("fn " : Text) := by decide
      have hname := shortLine_shorten (n := 24) (by decide) (source.textOf name)
      exact lined_of_label nofun (hword.append hname) rfl
  | exit _ => exact lined_of_label nofun (by decide : ShortLine 3 ("end" : Text)) rfl

/-- An edge is written with a short single line, or with none. -/
theorem lined_write (edge : Edge) (source : Source) : (edge.write source).Lined := by
  intro label hlabel
  obtain ⟨_, _, flow⟩ := edge
  cases flow with
  | onward => cases hlabel
  | whenTrue | whenFalse | body | next =>
    cases hlabel
    decide
  | arm index names =>
    cases hlabel
    exact shortLine_shorten (by decide) _

end Draft

namespace Builder

open Draft

/-- With a limit of two or more, the texts of a graph that was built are short
single lines. -/
theorem lined_of_build {builder : Builder} {tree : SyntaxTree} {graph : Graph}
    {notices : List Notice} {n : Int} (hlimit : builder.limit.scalar? = some (.int n)) (hn : 2 ≤ n)
    (h : (builder.build tree).2 = .ok (graph, notices)) :
    (∀ block ∈ graph.blocks, block.Lined n ∧ ∀ line ∈ block.statements, IsLine line) ∧
      ∀ edge ∈ graph.edges, edge.Lined := by
  constructor
  · rw [eq_graphOf_of_build hlimit h]
    intro block hblock
    suffices hlined : block.Lined n from ⟨hlined, hlined.isLine⟩
    obtain ⟨drawn, hdrawn, rfl⟩ := List.mem_map.1 hblock
    rcases List.mem_append.1 hdrawn with hentry | hdrawn
    · obtain ⟨_, _, rfl⟩ := Option.map_eq_some_iff.1 (Option.mem_toList.1 hentry)
      exact lined_of_label nofun (by decide : ShortLine 27 ("entry" : Text)) rfl
    -- Any other block was made for a node.
    · obtain ⟨horigin, hblocks⟩ := origin_ledgerOf builder.table tree
      obtain ⟨entry, hentry, rfl⟩ := List.mem_map.1 (hblocks ▸ hdrawn)
      obtain ⟨q, _, _, howns⟩ := horigin entry hentry
      exact lined_of_shows hn howns.shows builder.source
  · intro edge hedge
    obtain ⟨drawn, _, rfl⟩ := exists_drawn h hedge
    exact lined_write drawn builder.source

namespace Sample

/-- A node of a kind that covers some bytes. -/
def covering (kind : Text) (start stop : Int) (children : List SyntaxTree) : SyntaxTree :=
  .node ⟨.string kind, start, stop, ⟨0, 0⟩, ⟨0, 0⟩, true⟩ children

/-- A builder for three lines, with the least limit that bounds anything. -/
def short : Builder :=
  .new ⟨"if abc\ndo x\ny".toUTF8⟩ (.ofRoles fun
    | .branches => KindSet.ofList [.text "if"]
    | .conditions => KindSet.ofList [.text "test"]
    | .bodies => KindSet.ofList [.text "do"]
    | _ => ∅) (.int 2)

/-- A branch with a condition that is too long, around a statement of two lines
and one that ends before it starts. -/
def lines : SyntaxTree :=
  covering "all" 0 13
    [covering "if" 0 13 [covering "test" 3 6 [],
      covering "do" 7 13 [covering "call" 10 13 [], covering "call" 6 3 []]]]

/-- Its graph. -/
def linesGraph : Graph where
  blocks :=
    [{ block "cfg_3" "entry" .entry "root" with stop := 13 },
      { block "cfg_0" "if .." .branch "root-0" with stop := 13 },
      { block "cfg_1" "x" .statement "root-0-0" with start := 10, stop := 13 },
      { block "cfg_2" "" .statement "root-0-1" with start := 6, stop := 3 }]
  edges :=
    [⟨"cfg_1", "cfg_2", none⟩, ⟨"cfg_0", "cfg_1", some "true"⟩, ⟨"cfg_3", "cfg_0", none⟩]

/-- What is built of the sample. -/
theorem build_lines :
    (short.build lines).2 =
      .ok (linesGraph, [.entryPromoted "cfg_3" "cfg_0", .graphBuilt 4 3]) := by
  decide +kernel

end Sample

/-- Labels of at most two characters, and lines without line breaks. -/
theorem lined_of_build_lines :
    Sample.short.limit.scalar? = some (.int 2) ∧
      (Sample.short.build Sample.lines).2 =
        .ok (Sample.linesGraph, [.entryPromoted "cfg_3" "cfg_0", .graphBuilt 4 3]) ∧
      (∀ block ∈ Sample.linesGraph.blocks,
        block.Lined 2 ∧ ∀ line ∈ block.statements, IsLine line) ∧
      ∀ edge ∈ Sample.linesGraph.edges, edge.Lined :=
  ⟨rfl, Sample.build_lines, lined_of_build rfl (by decide) Sample.build_lines⟩

end Builder

end Flowchart
