import Flowchart.Kinds.Table

/-!
# `Flowchart.Proofs.Kinds.Known`: kinds that play one role

A kind can play several roles at once. In the tables for the known grammars
some roles are kept apart: an arm is no wrapper, a body is no other part, and
a comment is nothing else.

* `KindTable.Apart`: no kind plays both of two roles;
* `apart_default`: how roles of the known grammars are told apart;
* `apart_arms`, `apart_bodies`, `apart_comments`: those that are.
-/

set_option autoImplicit false

namespace Flowchart.KindTable

/-- No kind plays both of two roles. -/
def Apart (table : KindTable) (role role' : Role) : Prop :=
  ∀ kind, table.has role kind = true → table.has role' kind = false

/-- The default table knows the kinds that are listed for each role. -/
theorem has_default {role : Role} {kind : Json} :
    default.has role kind = true ↔ ∃ name ∈ knownKinds role, .text name = kind.key := by
  rw [has, default, kinds_ofRoles, decide_eq_true_eq, KindSet.mem_ofList, List.mem_map]

/-- Roles without a kind in common are apart. -/
theorem apart_default {role role' : Role}
    (h : ∀ name ∈ knownKinds role, name ∉ knownKinds role') : default.Apart role role' := by
  intro kind hrole
  obtain ⟨name, hname, hkey⟩ := has_default.1 hrole
  refine Bool.eq_false_iff.2 fun hrole' => ?_
  obtain ⟨name', hname', hkey'⟩ := has_default.1 hrole'
  cases hkey.trans hkey'.symm
  exact h name hname hname'

/-- In the default table no arm is a wrapper. -/
theorem apart_arms : default.Apart .arms .armContainers :=
  apart_default (by decide)

/-- In the default table no body is another part. -/
theorem apart_bodies : default.Apart .bodies .alternatives :=
  apart_default (by decide)

/-- A comment is nothing else. -/
theorem apart_comments {role : Role} (h : role ≠ .comments) : default.Apart .comments role := by
  apply apart_default
  cases role <;> first | decide | exact absurd rfl h

end Flowchart.KindTable
