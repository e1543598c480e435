import Flowchart.Json.Key

/-!
# `Flowchart.Kinds.KindSet`: sets of node kinds

A set of kinds is kept as a strictly ascending list of keys, so two sets with
the same members are the same set. Kinds have names; a set that was given as
JSON may have members that are no texts, and keeps them.

- `mem_insert`, `mem_union`, `mem_ofList`: the members of each operation;
- `ext_mem`: sets with the same members are equal.
-/

set_option autoImplicit false

namespace Flowchart

open Json (Key)

/-- A set of kinds. -/
structure KindSet where
  toList : List Key
  ascending : toList.Pairwise (· < ·)

namespace KindSet

/-- A kind put into an ascending list, unless it is there. -/
def insertInto (kind : Key) : List Key → List Key
  | [] => [kind]
  | other :: rest =>
    if kind < other then kind :: other :: rest
    else if other < kind then other :: insertInto kind rest
    else other :: rest

/-- A kind that is put into a row is there, besides those that were. -/
theorem mem_insertInto {kind other : Key} {kinds : List Key} :
    other ∈ insertInto kind kinds ↔ other = kind ∨ other ∈ kinds := by
  induction kinds with
  | nil => simp [insertInto]
  | cons first rest ih =>
    unfold insertInto
    split
    · simp
    · rename_i h₁
      split
      · simp only [List.mem_cons, ih]
        grind
      · rename_i h₂
        have := Key.eq_of_not_lt h₁ h₂
        grind

/-- A kind is put where it belongs in the order. -/
theorem ascending_insertInto {kind : Key} {kinds : List Key}
    (h : kinds.Pairwise (· < ·)) : (insertInto kind kinds).Pairwise (· < ·) := by
  induction kinds with
  | nil => simp [insertInto]
  | cons first rest ih =>
    have ⟨hfirst, hrest⟩ := List.pairwise_cons.1 h
    unfold insertInto
    split
    -- The kind comes before all others, behind the first one, or is there.
    · rename_i hlt
      refine List.pairwise_cons.2 ⟨fun other hother => ?_, h⟩
      rcases List.mem_cons.1 hother with rfl | hother
      · exact hlt
      · exact Key.lt_trans hlt (hfirst other hother)
    · split
      · rename_i hgt
        refine List.pairwise_cons.2 ⟨fun other hother => ?_, ih hrest⟩
        rcases mem_insertInto.1 hother with rfl | hother
        · exact hgt
        · exact hfirst other hother
      · exact h

instance : Membership Key KindSet := ⟨fun set kind => kind ∈ set.toList⟩

instance (kind : Key) (set : KindSet) : Decidable (kind ∈ set) :=
  inferInstanceAs (Decidable (kind ∈ set.toList))

instance : EmptyCollection KindSet := ⟨⟨[], .nil⟩⟩

instance : Inhabited KindSet := ⟨∅⟩

/-- A set with one more kind. -/
def insert (set : KindSet) (kind : Key) : KindSet :=
  ⟨insertInto kind set.toList, ascending_insertInto set.ascending⟩

/-- The kinds of a set and of a list. -/
def insertAll (set : KindSet) (kinds : List Key) : KindSet :=
  kinds.foldl insert set

/-- The set of the kinds of a list. -/
def ofList (kinds : List Key) : KindSet :=
  insertAll ∅ kinds

instance : Union KindSet := ⟨fun set other => set.insertAll other.toList⟩

/-- The empty set has no kind. -/
@[simp]
theorem not_mem_empty (kind : Key) : kind ∉ (∅ : KindSet) :=
  List.not_mem_nil

/-- A kind that is put into a set is there, besides those that were. -/
@[simp]
theorem mem_insert {set : KindSet} {kind other : Key} :
    other ∈ set.insert kind ↔ other = kind ∨ other ∈ set :=
  mem_insertInto

/-- Kinds that are put into a set are there, besides those that were. -/
@[simp]
theorem mem_insertAll {set : KindSet} {kinds : List Key} {kind : Key} :
    kind ∈ set.insertAll kinds ↔ kind ∈ set ∨ kind ∈ kinds := by
  induction kinds generalizing set with
  | nil => simp [insertAll]
  | cons first rest ih =>
    have h : set.insertAll (first :: rest) = (set.insert first).insertAll rest := rfl
    rw [h, ih, mem_insert, List.mem_cons]
    grind

/-- The set of a list has the kinds of the list. -/
@[simp]
theorem mem_ofList {kinds : List Key} {kind : Key} : kind ∈ ofList kinds ↔ kind ∈ kinds := by
  simp [ofList]

/-- The union of two sets has the kinds of both. -/
@[simp]
theorem mem_union {set other : KindSet} {kind : Key} :
    kind ∈ set ∪ other ↔ kind ∈ set ∨ kind ∈ other :=
  mem_insertAll

/-- Rows in order are told by their members. -/
theorem toList_eq_of_mem_iff {xs ys : List Key} (hx : xs.Pairwise (· < ·))
    (hy : ys.Pairwise (· < ·)) (h : ∀ kind, kind ∈ xs ↔ kind ∈ ys) : xs = ys := by
  induction xs generalizing ys with
  | nil =>
    cases ys with
    | nil => rfl
    | cons y ys => exact absurd ((h y).2 List.mem_cons_self) List.not_mem_nil
  | cons x xs ih =>
    cases ys with
    | nil => exact absurd ((h x).1 List.mem_cons_self) List.not_mem_nil
    | cons y ys =>
      have ⟨hxs, hx'⟩ := List.pairwise_cons.1 hx
      have ⟨hys, hy'⟩ := List.pairwise_cons.1 hy
      -- Each first kind is in the other row, and nothing in a row is less than its first kind.
      have hxy : x = y := by
        rcases List.mem_cons.1 ((h x).1 List.mem_cons_self) with hxy | hxy
        · exact hxy
        · rcases List.mem_cons.1 ((h y).2 List.mem_cons_self) with hyx | hyx
          · exact hyx.symm
          · exact absurd (hys x hxy) (Key.lt_asymm (hxs y hyx))
      subst hxy
      congr 1
      refine ih hx' hy' fun kind => ⟨fun hk => ?_, fun hk => ?_⟩
      · rcases List.mem_cons.1 ((h kind).1 (List.mem_cons_of_mem x hk)) with rfl | hk'
        · exact absurd (hxs kind hk) (Key.lt_irrefl kind)
        · exact hk'
      · rcases List.mem_cons.1 ((h kind).2 (List.mem_cons_of_mem x hk)) with rfl | hk'
        · exact absurd (hys kind hk) (Key.lt_irrefl kind)
        · exact hk'

/-- Sets with the same members are equal. -/
theorem ext_mem {set other : KindSet} (h : ∀ kind, kind ∈ set ↔ kind ∈ other) : set = other := by
  obtain ⟨xs, hx⟩ := set
  obtain ⟨ys, hy⟩ := other
  have := toList_eq_of_mem_iff hx hy h
  subst this
  rfl

end KindSet

end Flowchart
