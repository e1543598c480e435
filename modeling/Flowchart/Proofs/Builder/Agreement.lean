import Flowchart.Builder
import Flowchart.Proofs.Builder.Tokens
import Flowchart.Proofs.Kinds.Agreement

/-!
# `Flowchart.Proofs.Builder.Agreement`: graphs depend on the kinds that occur

Tables that say the same of every kind of a tree build the same graph of it, or
come upon the same fault. Kinds that do not occur never matter: tables with more
kinds build what the tables without them do. This is so even though they make
containers of all functions, since no one asks whether a function is one.

* `build_eq_of_agree`: what is built with tables that say the same;
* `build_depends_on_kinds`: the same, and for tables with more kinds.
-/

set_option autoImplicit false

namespace Flowchart

namespace KindTable

variable {table extended : KindTable} {extra : List (Text × List Json.Key)}

/-- Tables with more kinds say the same of a tree without those kinds. -/
theorem agreeOn_extendNamed {t : SyntaxTree} (h : table.extendNamed extra = .ok extended)
    (hfresh : ∀ entry ∈ extra, ∀ key ∈ entry.2, ∀ s ∈ t.subtrees, s.label.kind.key ≠ key) :
    table.AgreeOn extended t := by
  intro s hs
  rw [extendNamed_eq_ok h]
  refine agree_extend fun role hmem => ?_
  obtain ⟨entry, hentry, hkey⟩ := exists_of_mem_added hmem
  exact hfresh entry hentry _ hkey s hs rfl

end KindTable

namespace Builder

/-- Builders whose tables agree on a tree build the same of it. -/
theorem build_eq_of_agree {table other : KindTable} {tree : SyntaxTree} (source : Source)
    (limit : Json) (h : table.AgreeOn other tree) :
    ((new source table limit).build tree).2 = ((new source other limit).build tree).2 := by
  have hmark := KindTable.mark_eq_of_agree h
  have hrefusal := KindTable.markRefusal?_eq_of_agree (h.mark other)
  have hdraft := Draft.draft_eq_of_agree (h.mark other)
  simp only [build, new, hmark, hrefusal, hdraft]
  cases other.markRefusal? (other.mark tree) with
  | some kind => rfl
  | none =>
    -- Only what the builder holds then differs, by the tables themselves.
    dsimp only
    split <;> rfl

/-- Tables that say the same of the kinds of a tree build the same of it, and so
do tables to which no kind of the tree was added. -/
theorem build_depends_on_kinds (source : Source) (limit : Json) (tree : SyntaxTree) :
    (∀ table other : KindTable, table.AgreeOn other tree →
      ((new source table limit).build tree).2 = ((new source other limit).build tree).2) ∧
    ∀ (table extended : KindTable) (extra : List (Text × List Json.Key)),
      table.extendNamed extra = .ok extended →
      (∀ entry ∈ extra, ∀ key ∈ entry.2, ∀ s ∈ tree.subtrees, s.label.kind.key ≠ key) →
      ((new source table limit).build tree).2 = ((new source extended limit).build tree).2 := by
  constructor
  · intro table other hagree
    exact build_eq_of_agree source limit hagree
  · intro table extended extra hextended hfresh
    exact build_eq_of_agree source limit (KindTable.agreeOn_extendNamed hextended hfresh)

namespace Sample

/-- Tables in which functions are no containers. -/
def plain : KindTable :=
  .ofRoles fun role =>
    if role = .containers then .ofList (KindTable.statementRowKinds.map .text)
    else KindTable.default.kinds role

/-- A function that does something. -/
def defining : SyntaxTree :=
  named "program"
    [named "function_definition"
      [named "identifier" [], named "block" [named "expression_statement" []]]]

/-- The graph of the function. -/
def definingGraph : Graph where
  blocks :=
    [block "cfg_0" "fn " .entry "root-0", block "cfg_1" "" .statement "root-0-0",
      block "cfg_2" "end" .exit "root-0"]
  edges := [⟨"cfg_0", "cfg_1", none⟩, ⟨"cfg_1", "cfg_2", none⟩]

/-- Another kind of branches. -/
def otherwise : List (Text × List Json.Key) :=
  [("if_types", [.text "unless"])]

/-- The sample has none of the kinds that are added. -/
theorem fresh_otherwise : ∀ entry ∈ otherwise, ∀ key ∈ entry.2, ∀ s ∈ defining.subtrees,
    s.label.kind.key ≠ key := by
  decide

/-- The tables agree on the sample. -/
theorem agreeOn_plain : plain.AgreeOn .default defining := by
  have hcontainer : ∀ s ∈ defining.subtrees, plain.category? s.label.kind = none →
      plain.has .containers s.label.kind = KindTable.default.has .containers s.label.kind := by
    decide +kernel
  intro s hs
  refine KindTable.agree_of_has (fun role hrole => ?_) (hcontainer s hs)
  simp only [KindTable.has, plain, KindTable.kinds_ofRoles, if_neg hrole]

/-- What is built of the sample. -/
theorem build_defining :
    ((new ⟨.empty⟩ plain (.int 40)).build defining).2 =
      .ok (definingGraph, [.graphBuilt 3 2]) := by
  decide +kernel

end Sample

/-- Where functions are no containers, the tables for the known grammars say
something else of functions, and so do tables with another kind of branches.
They all build the same of a function. -/
theorem build_depends_on_kinds_function :
    ∃ extended, Sample.plain.extendNamed Sample.otherwise = .ok extended ∧
      Sample.plain.has .containers (.string "function_definition") = false ∧
      extended.has .containers (.string "function_definition") = true ∧
      ((new ⟨.empty⟩ extended (.int 40)).build Sample.defining).2 =
        .ok (Sample.definingGraph, [.graphBuilt 3 2]) ∧
      ((new ⟨.empty⟩ .default (.int 40)).build Sample.defining).2 =
        .ok (Sample.definingGraph, [.graphBuilt 3 2]) := by
  obtain ⟨hagree, hextend⟩ := build_depends_on_kinds ⟨.empty⟩ (.int 40) Sample.defining
  obtain ⟨extended, hextended⟩ :
      ∃ extended, Sample.plain.extendNamed Sample.otherwise = .ok extended := ⟨_, rfl⟩
  refine ⟨extended, hextended, by decide +kernel, ?_, ?_, ?_⟩
  · rw [KindTable.extendNamed_eq_ok hextended, KindTable.has_extend_containers]
    decide +kernel
  -- Each graph is carried over from the table whose graph is run.
  · rw [← hextend _ _ _ hextended Sample.fresh_otherwise, Sample.build_defining]
  · rw [← hagree _ _ Sample.agreeOn_plain, Sample.build_defining]

end Builder

end Flowchart
