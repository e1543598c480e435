import Mathlib.Data.List.Nodup
import Flowchart.Proofs.Except
import Flowchart.Proofs.Graph.Distinct
import Flowchart.Sketch.Graph

/-!
# `Flowchart.Proofs.Graph.Faces`: the first edge of each face

Edges are told apart by their faces and written down as JSON. Both drop what an
edge does not show, so two edges have the same face exactly if they are written
the same way: an edge without a label and one with an empty label do.

Of a row, the items are kept that stand in front of all others with their face.
Which ones these are is said by their indices, since the same edge can stand in
a row more than once.

* `FirstAt`: where the first item with its face stands;
* `mem_distinctFrom_zipIdx`, `indices_distinctBy`: the indices of what is kept;
* `nodup_map_distinctBy`, `mem_map_distinctBy`: each face is kept, and once;
* `Edge.toJson_eq_iff`: edges with the same JSON;
* `Edge.distinct_firsts`: what is kept of a row of edges.
-/

set_option autoImplicit false

namespace Flowchart

section

variable {ε φ ψ ζ : Type}

/-- At an index of a row stands an item, and none in front of it has the same
face. -/
structure FirstAt (face : ε → φ) (items : List ε) (i : Nat) (item : ε) : Prop where
  here : items[i]? = some item
  before : ∀ j < i, ∀ earlier, items[j]? = some earlier → face earlier ≠ face item

/-- The first item is the first of its face. -/
theorem firstAt_zero {face : ε → φ} {items : List ε} {first item : ε} :
    FirstAt face (first :: items) 0 item ↔ first = item := by
  constructor
  · intro h
    simpa using h.here
  · rintro rfl
    exact ⟨rfl, by simp⟩

/-- A later item is the first of its face if the first item has another one, and
it is the first behind it. -/
theorem firstAt_succ {face : ε → φ} {items : List ε} {first item : ε} {i : Nat} :
    FirstAt face (first :: items) (i + 1) item ↔
      face first ≠ face item ∧ FirstAt face items i item := by
  constructor
  · intro h
    refine ⟨h.before 0 (Nat.succ_pos i) first rfl, by simpa using h.here, ?_⟩
    intro j hj earlier hearlier
    exact h.before (j + 1) (Nat.succ_lt_succ hj) earlier (by simpa using hearlier)
  · rintro ⟨hfirst, h⟩
    refine ⟨by simpa using h.here, ?_⟩
    intro j hj earlier hearlier
    -- An earlier item is the first one, or one of the rest.
    cases j with
    | zero =>
      obtain rfl : first = earlier := by simpa using hearlier
      exact hfirst
    | succ j => exact h.before j (Nat.lt_of_succ_lt_succ hj) earlier (by simpa using hearlier)

variable [DecidableEq φ] [DecidableEq ψ] {face : ε → φ} {seen : List φ}

/-! ### What is kept -/

/-- A row that was made of other items is kept as they are. -/
theorem distinctFrom_map (f : ζ → ε) (items : List ζ) :
    distinctFrom face seen (items.map f) = (distinctFrom (face ∘ f) seen items).map f := by
  induction items generalizing seen with
  | nil => rfl
  | cons first items ih =>
    rw [List.map_cons, distinctFrom, distinctFrom, ih, ih, apply_ite (List.map f)]
    rfl

/-- Faces that tell the same items apart keep the same. -/
theorem distinctFrom_congr {shape : ε → ψ} (h : ∀ a b, face a = face b ↔ shape a = shape b)
    (kept items : List ε) :
    distinctFrom face (kept.map face) items = distinctFrom shape (kept.map shape) items := by
  induction items generalizing kept with
  | nil => rfl
  | cons first items ih =>
    have hseen : face first ∈ kept.map face ↔ shape first ∈ kept.map shape := by
      simp only [List.mem_map, h]
    rw [distinctFrom, distinctFrom, ih kept, ← List.map_cons, ← List.map_cons, ih (first :: kept)]
    simp only [hseen]

/-! ### Faces -/

/-- The faces that are left are those that were there, but for those seen. -/
theorem mem_map_distinctFrom {items : List ε} {shown : φ} :
    shown ∈ (distinctFrom face seen items).map face ↔ shown ∈ items.map face ∧ shown ∉ seen := by
  induction items generalizing seen with
  | nil => simp [distinctFrom]
  | cons first items ih =>
    rw [distinctFrom]
    split
    -- What was seen is dropped, and what is kept counts as seen from then on.
    · rename_i hfirst
      rw [ih, List.map_cons, List.mem_cons]
      constructor
      · rintro ⟨hitems, hseen⟩
        exact ⟨.inr hitems, hseen⟩
      · rintro ⟨rfl | hitems, hseen⟩
        · exact absurd hfirst hseen
        · exact ⟨hitems, hseen⟩
    · rename_i hfirst
      rw [List.map_cons, List.mem_cons, ih, List.map_cons, List.mem_cons, List.mem_cons]
      by_cases heq : shown = face first
      · simp [heq, hfirst]
      · simp [heq]

/-- No face is left twice. -/
theorem nodup_map_distinctFrom (items : List ε) :
    ((distinctFrom face seen items).map face).Nodup := by
  induction items generalizing seen with
  | nil => exact List.nodup_nil
  | cons first items ih =>
    rw [distinctFrom]
    split
    · exact ih
    · rw [List.map_cons, List.nodup_cons, mem_map_distinctFrom]
      -- What comes behind the first item has been told apart from it.
      exact ⟨fun h => h.2 List.mem_cons_self, ih⟩

/-- No two of the items that are kept have the same face. -/
theorem nodup_map_distinctBy (face : ε → φ) (items : List ε) :
    ((distinctBy face items).map face).Nodup :=
  nodup_map_distinctFrom items

/-- Every face is kept. -/
theorem mem_map_distinctBy {items : List ε} {shown : φ} :
    shown ∈ (distinctBy face items).map face ↔ shown ∈ items.map face := by
  rw [distinctBy, mem_map_distinctFrom]
  simp

/-! ### Indices -/

section

variable {first item : ε} {items : List ε} {start : Nat}

/-- Behind the start of a numbered row all numbers are greater. -/
theorem start_notMem_distinctFrom (seen : List φ) :
    (item, start) ∉ distinctFrom (face ∘ Prod.fst) seen (items.zipIdx (start + 1)) := by
  intro h
  have hle := List.le_snd_of_mem_zipIdx ((distinctFrom_sublist _).subset h)
  exact absurd hle (Nat.not_succ_le_self start)

/-- The first item of a numbered row is kept unless its face has been seen. -/
theorem start_mem_distinctFrom :
    (item, start) ∈ distinctFrom (face ∘ Prod.fst) seen ((first :: items).zipIdx start) ↔
      face item ∉ seen ∧ first = item := by
  -- Behind the first item the numbers are greater.
  rw [List.zipIdx_cons, distinctFrom]
  split
  · rename_i hfirst
    refine iff_of_false (start_notMem_distinctFrom seen) ?_
    rintro ⟨hitem, rfl⟩
    exact hitem hfirst
  · rename_i hfirst
    rw [List.mem_cons, or_iff_left (start_notMem_distinctFrom _), Prod.mk.injEq, eq_comm]
    constructor
    · rintro ⟨rfl, _⟩
      exact ⟨hfirst, rfl⟩
    · rintro ⟨_, rfl⟩
      exact ⟨rfl, rfl⟩

/-- Behind the first item of a numbered row its face has been seen too. -/
theorem behind_mem_distinctFrom {i : Nat} :
    (item, start + 1 + i) ∈ distinctFrom (face ∘ Prod.fst) seen ((first :: items).zipIdx start) ↔
      (item, start + 1 + i) ∈
        distinctFrom (face ∘ Prod.fst) (if face first ∈ seen then seen else face first :: seen)
          (items.zipIdx (start + 1)) := by
  rw [List.zipIdx_cons, distinctFrom]
  by_cases hfirst : face first ∈ seen
  · simp only [Function.comp_apply, if_pos hfirst]
  · have hne : (item, start + 1 + i) ≠ (first, start) := by
      intro h
      have hsame : start + 1 + i = start := congrArg Prod.snd h
      omega
    simp only [Function.comp_apply, if_neg hfirst]
    rw [List.mem_cons, or_iff_right hne]

end

/-- Of a row with indices, the first item with each face is kept, unless the face
has been seen. -/
theorem mem_distinctFrom_zipIdx {items : List ε} {start i : Nat} {item : ε} :
    (item, start + i) ∈ distinctFrom (face ∘ Prod.fst) seen (items.zipIdx start) ↔
      face item ∉ seen ∧ FirstAt face items i item := by
  induction items generalizing seen start i with
  | nil =>
    refine iff_of_false (by simp [distinctFrom]) ?_
    rintro ⟨_, h⟩
    simpa using h.here
  | cons first items ih =>
    cases i with
    | zero => rw [firstAt_zero, Nat.add_zero, start_mem_distinctFrom]
    | succ i =>
      have hindex : start + (i + 1) = start + 1 + i := by omega
      rw [firstAt_succ, hindex, behind_mem_distinctFrom, ih]
      -- An item that shares the face of the first one is not the first with it.
      split
      · rename_i hfirst
        constructor
        · rintro ⟨hitem, h⟩
          exact ⟨hitem, fun heq => hitem (heq ▸ hfirst), h⟩
        · rintro ⟨hitem, _, h⟩
          exact ⟨hitem, h⟩
      · rw [List.mem_cons, not_or, and_comm (b := face item ∉ seen), and_assoc, ne_comm]

/-- What is kept of a row are the items at some of its indices, in order: those at
which the first item with its face stands. -/
theorem indices_distinctBy (face : ε → φ) (items : List ε) :
    ∃ indices : List Nat, indices.Pairwise (· < ·) ∧
      (∀ i, i ∈ indices ↔ ∃ item, FirstAt face items i item) ∧
      indices.map (items[·]?) = (distinctBy face items).map some := by
  have hkept : (distinctFrom (face ∘ Prod.fst) [] items.zipIdx).Sublist items.zipIdx :=
    distinctFrom_sublist _
  have hfirst (i : Nat) (item : ε) :
      (item, i) ∈ distinctFrom (face ∘ Prod.fst) [] items.zipIdx ↔ FirstAt face items i item := by
    have h : (item, 0 + i) ∈ distinctFrom (face ∘ Prod.fst) [] items.zipIdx ↔
      face item ∉ [] ∧ FirstAt face items i item := mem_distinctFrom_zipIdx
    simpa using h
  -- The numbers that the kept items had.
  refine ⟨(distinctFrom (face ∘ Prod.fst) [] items.zipIdx).map Prod.snd, ?_, ?_, ?_⟩
  · have hindices := hkept.map Prod.snd
    rw [List.zipIdx_map_snd] at hindices
    exact (List.pairwise_lt_range' (s := 0)).sublist hindices
  · intro i
    simp only [List.mem_map, Prod.exists, hfirst, exists_eq_right]
  · have hitems : distinctBy face items =
        (distinctFrom (face ∘ Prod.fst) [] items.zipIdx).map Prod.fst := by
      rw [← distinctFrom_map, List.zipIdx_map_fst, distinctBy]
    rw [hitems, List.map_map, List.map_map]
    refine List.map_congr_left ?_
    rintro ⟨item, i⟩ hmem
    exact ((hfirst i item).1 hmem).here

end

/-! ### Edges -/

namespace Edge

variable {a b : Edge}

/-- An edge shows its label unless that is empty. -/
theorem shownLabel?_sketch (edge : Edge) : edge.sketch.shownLabel? =
    if edge.label.getD [] = [] then none else some (.string (edge.label.getD [])) := by
  obtain ⟨source, target, label⟩ := edge
  cases label with
  | none => rfl
  | some label => cases label <;> rfl

/-- An edge without a label looks like one with an empty label. -/
theorem faceLabel_sketch (edge : Edge) :
    edge.sketch.faceLabel = .string (edge.label.getD []) := by
  rw [Sketch.Edge.faceLabel, shownLabel?_sketch]
  split
  · rename_i hlabel
    rw [hlabel]
    rfl
  · rfl

/-- The face of an edge consists of its ends and its label. -/
theorem face_sketch (edge : Edge) : edge.sketch.face =
    (.text edge.source, .text edge.target, .text (edge.label.getD [])) := by
  rw [Sketch.Edge.face, faceLabel_sketch]
  rfl

/-- An edge is written with its label unless that is empty. -/
theorem toJson_eq (edge : Edge) : edge.toJson =
    .object (("from", .string edge.source) :: ("to", .string edge.target) ::
      if edge.label.getD [] = [] then [] else [("label", .string (edge.label.getD []))]) := by
  rw [toJson, Sketch.Edge.toJson, shownLabel?_sketch]
  split <;> rfl

/-- Two edges are written the same way exactly if they have the same face. A
label that is empty is not written and is not told from none. -/
theorem toJson_eq_iff : a.toJson = b.toJson ↔ a.face = b.face := by
  rw [toJson_eq, toJson_eq, face, face]
  by_cases ha : a.label.getD [] = []
  · by_cases hb : b.label.getD [] = []
    · simp [ha, hb]
    · simp [ha, hb, Ne.symm hb]
  · by_cases hb : b.label.getD [] = []
    · simp [ha, hb]
    · simp [ha, hb]

/-- Edges have the same face if they are shown in the same way. -/
theorem face_sketch_eq_iff : a.sketch.face = b.sketch.face ↔ a.face = b.face := by
  rw [face_sketch, face_sketch]
  simp [face]

/-- The face of an edge can be looked up. -/
theorem lookUpFace_sketch (edge : Edge) : edge.sketch.lookUpFace = .ok () := by
  rw [Sketch.Edge.lookUpFace, faceLabel_sketch]
  rfl

/-- Edges are told apart as their sketches are. -/
theorem distinct_sketch (edges : List Edge) :
    Sketch.Edge.distinct (edges.map sketch) = .ok ((distinct edges).map sketch) := by
  have hlookUp : (edges.map sketch).forM Sketch.Edge.lookUpFace = .ok () := by
    refine forM_eq_ok ?_
    simp [lookUpFace_sketch]
  rw [Sketch.Edge.distinct, hlookUp, ok_bind, distinctBy, distinctFrom_map]
  have hfaces : distinctFrom (Sketch.Edge.face ∘ sketch) [] edges = distinctFrom face [] edges :=
    distinctFrom_congr (fun _ _ => face_sketch_eq_iff) [] edges
  rw [hfaces]
  rfl

/-- What is kept of a row of edges can be said by what is written alone. -/
theorem distinct_eq [DecidableEq Json] (edges : List Edge) :
    distinct edges = distinctBy toJson edges :=
  distinctFrom_congr (fun _ _ => toJson_eq_iff.symm) [] edges

/-- Of a row of edges, and of their sketches too, what is kept is the first one
of each JSON form, in order. No form is kept twice and none is lost, so a row
that has been gone through is left as it is. -/
theorem distinct_firsts (edges : List Edge) :
    Sketch.Edge.distinct (edges.map sketch) = .ok ((distinct edges).map sketch) ∧
      (distinct edges).Sublist edges ∧
      (∃ indices : List Nat, indices.Pairwise (· < ·) ∧
        (∀ i, i ∈ indices ↔ ∃ edge, FirstAt toJson edges i edge) ∧
        indices.map (edges[·]?) = (distinct edges).map some) ∧
      ((distinct edges).map toJson).Nodup ∧
      (∀ json, json ∈ (distinct edges).map toJson ↔ json ∈ edges.map toJson) ∧
      distinct (distinct edges) = distinct edges := by
  classical
  -- What an edge is written as tells its face, so either can be taken.
  have hwritten := distinct_eq edges
  refine ⟨distinct_sketch edges, distinctFrom_sublist edges, ?_, ?_, ?_, ?_⟩
  · rw [hwritten]
    exact indices_distinctBy toJson edges
  · rw [hwritten]
    exact nodup_map_distinctBy toJson edges
  · intro json
    rw [hwritten]
    exact mem_map_distinctBy
  · exact distinctBy_eq_self (nodup_map_distinctBy face edges)

/-- An edge with an empty label stands for the ones without a label behind it. -/
example : distinct [⟨"a", "b", some ""⟩, ⟨"a", "b", some "c"⟩, ⟨"a", "b", none⟩] =
    [⟨"a", "b", some ""⟩, ⟨"a", "b", some "c"⟩] := by
  decide

end Edge

end Flowchart
