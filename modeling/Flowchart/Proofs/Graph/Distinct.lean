import Flowchart.Graph.Basic

/-!
# `Flowchart.Proofs.Graph.Distinct`: what is kept of a list with repetitions

Of the items that show the same face, the first one is kept. So nothing is
kept that was not there, and all is kept where no face repeats.

* `distinctFrom_sublist`: what is kept was there, in the same order;
* `distinctBy_eq_self`: where no face repeats, nothing is dropped.
-/

set_option autoImplicit false

namespace Flowchart

variable {ε φ : Type} [DecidableEq φ] {face : ε → φ}

/-- What is left came in that order. -/
theorem distinctFrom_sublist {seen : List φ} (items : List ε) :
    (distinctFrom face seen items).Sublist items := by
  induction items generalizing seen with
  | nil => exact List.nil_sublist _
  | cons first items ih =>
    rw [distinctFrom]
    split
    · exact ih.cons first
    · exact ih.cons_cons first

/-- An edge that is left was there. -/
theorem Edge.mem_of_mem_distinct {edges : List Edge} {edge : Edge} (h : edge ∈ distinct edges) :
    edge ∈ edges :=
  (distinctFrom_sublist edges).subset h

/-- Where no face repeats and none has been seen, all is left. -/
theorem distinctFrom_eq_self {seen : List φ} {items : List ε} (h : (items.map face).Nodup)
    (hseen : ∀ item ∈ items, face item ∉ seen) : distinctFrom face seen items = items := by
  induction items generalizing seen with
  | nil => rfl
  | cons first items ih =>
    obtain ⟨hfirst, hitems⟩ := List.nodup_cons.1 h
    rw [distinctFrom, if_neg (hseen first List.mem_cons_self)]
    refine congrArg _ (ih hitems fun item hitem hmem => ?_)
    rcases List.mem_cons.1 hmem with heq | hmem
    · exact hfirst (heq ▸ List.mem_map_of_mem hitem)
    · exact hseen item (List.mem_cons_of_mem first hitem) hmem

/-- Where no face repeats, nothing is dropped. -/
theorem distinctBy_eq_self {items : List ε} (h : (items.map face).Nodup) :
    distinctBy face items = items :=
  distinctFrom_eq_self h fun _ _ => List.not_mem_nil

end Flowchart
