/-!
# `Flowchart.Proofs.Except`: results that may be faults

Laws of computations that end in a result or in a fault, step by step over a
list.

* `bind_eq_ok`: a sequence has a result if both of its parts have one;
* `map_of_mapM`: what is observed of the results of a list is what is
  observed of its items;
* `exists_of_mem_mapM`: each result of a list is that of one of its items;
* `filterM_eq_ok`: a filter whose question is always answered is a filter;
* `forM_eq_ok`: steps that all succeed;
* `anyM_eq_ok`: a search whose question is always answered is a search;
* `Succeeds`: computations that have a result;
* `mapM_eq_error`: the first item without a result ends a list;
* `Yields`: computations that have a result of some kind.
-/

set_option autoImplicit false

namespace Flowchart

/-- What comes behind a result is applied to it. -/
theorem ok_bind {ε α β : Type} (a : α) (f : α → Except ε β) : Except.ok a >>= f = f a := rfl

/-- Two steps give a result if the first one does and the second one does for
that. -/
theorem bind_eq_ok {ε α β : Type} {x : Except ε α} {f : α → Except ε β} {b : β} :
    x >>= f = .ok b ↔ ∃ a, x = .ok a ∧ f a = .ok b := by
  constructor
  · intro h
    cases x with
    | error fault => cases h
    | ok a => exact ⟨a, rfl, h⟩
  · rintro ⟨a, rfl, h⟩
    exact h

/-- If each result shows the same as its source, the results show the same as
the sources. -/
theorem map_of_mapM {ε α β γ : Type} {f : α → Except ε β} (observe : α → γ) (observe' : β → γ)
    {as : List α} {bs : List β} (hf : ∀ a, ∀ b ∈ bs, f a = .ok b → observe' b = observe a)
    (h : as.mapM f = .ok bs) : bs.map observe' = as.map observe := by
  induction as generalizing bs with
  | nil =>
    cases h
    rfl
  | cons a as ih =>
    rw [List.mapM_cons] at h
    obtain ⟨b, hb, h⟩ := bind_eq_ok.1 h
    obtain ⟨rest, hrest, h⟩ := bind_eq_ok.1 h
    cases h
    have hothers := ih (fun a' b' hb' => hf a' b' (List.mem_cons_of_mem b hb')) hrest
    rw [List.map_cons, List.map_cons, hf a b List.mem_cons_self hb, hothers]

/-- Each result of a list is that of one of its items. -/
theorem exists_of_mem_mapM {ε α β : Type} {f : α → Except ε β} {as : List α} {bs : List β}
    (h : as.mapM f = .ok bs) : ∀ b ∈ bs, ∃ a ∈ as, f a = .ok b := by
  induction as generalizing bs with
  | nil =>
    cases h
    nofun
  | cons a as ih =>
    rw [List.mapM_cons] at h
    obtain ⟨b, hb, h⟩ := bind_eq_ok.1 h
    obtain ⟨rest, hrest, h⟩ := bind_eq_ok.1 h
    cases h
    refine List.forall_mem_cons.2 ⟨⟨a, List.mem_cons_self, hb⟩, fun b' hb' => ?_⟩
    obtain ⟨a', ha', hb'⟩ := ih hrest b' hb'
    exact ⟨a', List.mem_cons_of_mem a ha', hb'⟩

/-- A filter whose test never fails is the filter by its answers. -/
theorem filterM_eq_ok {ε α : Type} {f : α → Except ε Bool} {p : α → Bool}
    (hf : ∀ a, f a = .ok (p a)) (as : List α) : as.filterM f = .ok (as.filter p) := by
  have haux : ∀ (as kept : List α),
      List.filterAuxM f as kept = .ok ((as.filter p).reverse ++ kept) := by
    intro as
    induction as with
    | nil => exact fun _ => rfl
    | cons a as ih =>
      intro kept
      rw [List.filterAuxM, hf a, ok_bind, ih]
      cases hp : p a <;> simp [hp]
  rw [List.filterM, haux, ok_bind, List.append_nil, List.reverse_reverse]
  rfl

/-- Steps that all succeed succeed one after another. -/
theorem forM_eq_ok {ε α : Type} {f : α → Except ε Unit} {as : List α}
    (h : ∀ a ∈ as, f a = .ok ()) : as.forM f = .ok () := by
  induction as with
  | nil => rfl
  | cons a as ih =>
    have hrest := ih fun a' ha' => h a' (List.mem_cons_of_mem a ha')
    rw [List.forM, h a List.mem_cons_self, ok_bind]
    exact hrest

/-- Questions that are all answered, asked until one answer is yes. -/
theorem anyM_eq_ok {ε α : Type} {f : α → Except ε Bool} {p : α → Bool} {as : List α}
    (h : ∀ a ∈ as, f a = .ok (p a)) : as.anyM f = .ok (as.any p) := by
  induction as with
  | nil => rfl
  | cons a as ih =>
    have hrest := ih fun a' ha' => h a' (List.mem_cons_of_mem a ha')
    rw [List.anyM, h a List.mem_cons_self, ok_bind, List.any_cons]
    cases p a with
    | true => rfl
    | false => exact hrest

/-- A computation has a result. -/
def Succeeds {ε α : Type} (x : Except ε α) : Prop :=
  ∃ a, x = .ok a

namespace Succeeds

variable {ε α β : Type}

/-- A step behind another one succeeds if both do. -/
theorem bind {x : Except ε α} {f : α → Except ε β} (hx : Succeeds x)
    (hf : ∀ a, Succeeds (f a)) : Succeeds (x >>= f) := by
  obtain ⟨a, rfl⟩ := hx
  exact hf a

/-- Steps for each item succeed if each does. -/
theorem mapM {f : α → Except ε β} {as : List α} (h : ∀ a ∈ as, Succeeds (f a)) :
    Succeeds (as.mapM f) := by
  induction as with
  | nil => exact ⟨[], rfl⟩
  | cons a as ih =>
    rw [List.mapM_cons]
    have hrest := ih fun a' ha' => h a' (List.mem_cons_of_mem a ha')
    exact (h a List.mem_cons_self).bind fun b => hrest.bind fun bs => ⟨b :: bs, rfl⟩

/-- Steps that go on from each other succeed if each does. -/
theorem foldlM {f : β → α → Except ε β} (h : ∀ b a, Succeeds (f b a)) (start : β) (as : List α) :
    Succeeds (as.foldlM f start) := by
  induction as generalizing start with
  | nil => exact ⟨start, rfl⟩
  | cons a as ih =>
    rw [List.foldlM_cons]
    exact (h start a).bind ih

end Succeeds

/-- The first item without a result ends a list. -/
theorem mapM_eq_error {ε α β : Type} {f : α → Except ε β} {before after : List α} {a : α}
    {fault : ε} (hbefore : ∀ b ∈ before, Succeeds (f b)) (ha : f a = .error fault) :
    (before ++ a :: after).mapM f = .error fault := by
  induction before with
  | nil =>
    rw [List.nil_append, List.mapM_cons, ha]
    rfl
  | cons first rest ih =>
    obtain ⟨⟨b, hb⟩, hrest⟩ := List.forall_mem_cons.1 hbefore
    rw [List.cons_append, List.mapM_cons, hb, ok_bind, ih hrest]
    rfl

/-- A computation has a result, and of a kind. -/
def Yields {ε α : Type} (x : Except ε α) (P : α → Prop) : Prop :=
  ∃ a, x = .ok a ∧ P a

namespace Yields

variable {ε α β : Type} {P P' : α → Prop} {Q : β → Prop}

/-- A result of a kind is yielded. -/
theorem ok {a : α} (h : P a) : Yields (.ok a : Except ε α) P :=
  ⟨a, rfl, h⟩

/-- What is yielded is of the kind. -/
theorem of_eq {x : Except ε α} {a : α} (hx : Yields x P) (h : x = .ok a) : P a := by
  obtain ⟨b, hb, hP⟩ := hx
  cases hb.symm.trans h
  exact hP

/-- What yields a result succeeds. -/
theorem succeeds {x : Except ε α} (hx : Yields x P) : Succeeds x :=
  let ⟨a, ha, _⟩ := hx
  ⟨a, ha⟩

/-- What yields results of a kind yields results of any wider kind. -/
theorem mono {x : Except ε α} (hx : Yields x P) (h : ∀ a, P a → P' a) : Yields x P' :=
  let ⟨a, ha, hP⟩ := hx
  ⟨a, ha, h a hP⟩

/-- A step behind another one yields what it yields for the results of that. -/
theorem bind {x : Except ε α} {f : α → Except ε β} (hx : Yields x P)
    (hf : ∀ a, P a → Yields (f a) Q) : Yields (x >>= f) Q := by
  obtain ⟨a, rfl, hP⟩ := hx
  exact hf a hP

/-- Steps for each item yield as many results of the kind. -/
theorem mapM {f : α → Except ε β} {as : List α} (h : ∀ a ∈ as, Yields (f a) Q) :
    Yields (as.mapM f) fun bs => bs.length = as.length ∧ ∀ b ∈ bs, Q b := by
  induction as with
  | nil => exact .ok ⟨rfl, nofun⟩
  | cons a as ih =>
    rw [List.mapM_cons]
    have hrest := ih fun a' ha' => h a' (List.mem_cons_of_mem a ha')
    refine (h a List.mem_cons_self).bind fun b hb => hrest.bind fun bs hbs => ?_
    exact .ok ⟨congrArg (· + 1) hbs.1, List.forall_mem_cons.2 ⟨hb, hbs.2⟩⟩

/-- A fold keeps what each of its steps keeps. -/
theorem foldlM {f : β → α → Except ε β} {start : β} {as : List α} (hstart : Q start)
    (h : ∀ b, Q b → ∀ a ∈ as, Yields (f b a) Q) : Yields (as.foldlM f start) Q := by
  induction as generalizing start with
  | nil => exact .ok hstart
  | cons a as ih =>
    rw [List.foldlM_cons]
    refine (h start hstart a List.mem_cons_self).bind fun b hb => ?_
    exact ih hb fun b' hb' a' ha' => h b' hb' a' (List.mem_cons_of_mem a ha')

end Yields

end Flowchart
