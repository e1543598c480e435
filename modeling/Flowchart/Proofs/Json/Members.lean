import Flowchart.Json.Basic

/-!
# `Flowchart.Proofs.Json.Members`: what an object has under a name

An object is a list of members, and of members with one name the first is
found. Where names are distinct, what is found does not depend on the order.

* `lookup_cons_ofString`: names that are written out are compared as strings;
* `mem_of_lookup`, `lookup_eq_some`: what is found is a member, and the only one
  of a name is found;
* `lookup_putAll`: of two objects, one put into the other, the latter counts
  only where the former has nothing.
-/

set_option autoImplicit false

namespace Flowchart.Json.Members

variable {members : Members} {name : Text} {value : Json}

/-- The first member decides for its own name. -/
theorem lookup_cons (name' : Text) (value : Json) (members : Members) (name : Text) :
    lookup ((name', value) :: members) name =
      if name = name' then some value else members.lookup name := by
  show List.lookup name ((name', value) :: members) = _
  rw [List.lookup_cons]
  split
  next h => rw [if_pos (by simpa using h)]
  next h => rw [if_neg (by simpa using h)]

/-- Names that are written out are the same if their strings are. -/
@[simp]
theorem lookup_cons_ofString (s t : String) (value : Json) (members : Members) :
    lookup ((Text.ofString s, value) :: members) (Text.ofString t) =
      if t = s then some value else members.lookup (Text.ofString t) := by
  simp only [lookup_cons, Text.ofString_inj]

/-- What is found under a name is a member. -/
theorem mem_of_lookup (h : members.lookup name = some value) : (name, value) ∈ members := by
  obtain ⟨before, after, rfl, -⟩ := List.lookup_eq_some_iff.1 h
  simp

/-- What is there once a member is put was there, or is that member. -/
theorem mem_of_mem_put {member : Text × Json} (h : member ∈ members.put name value) :
    member ∈ members ∨ member = (name, value) := by
  induction members with
  | nil => exact .inr (List.mem_singleton.1 h)
  | cons first rest ih =>
    obtain ⟨name', value'⟩ := first
    rw [put] at h
    split at h
    next hname =>
      have hname' : name = name' := by simpa using hname
      rcases List.mem_cons.1 h with rfl | h
      · exact .inr (by rw [hname'])
      · exact .inl (List.mem_cons_of_mem _ h)
    next =>
      rcases List.mem_cons.1 h with rfl | h
      · exact .inl List.mem_cons_self
      · exact (ih h).imp_left (List.mem_cons_of_mem _)

/-- A member is found if there is no other one of its name. -/
theorem lookup_eq_some (hmem : (name, value) ∈ members)
    (hunique : ∀ other, (name, other) ∈ members → other = value) :
    members.lookup name = some value := by
  cases h : members.lookup name with
  | none =>
    have := List.lookup_eq_none_iff.1 h (name, value) hmem
    simp at this
  | some other => rw [hunique other (mem_of_lookup h)]

/-- A name that no member has is not found. -/
theorem lookup_eq_none (h : ∀ member ∈ members, member.1 ≠ name) : members.lookup name = none := by
  refine List.lookup_eq_none_iff.2 fun member hmember => ?_
  simpa using (h member hmember).symm

/-- The members of an object put into another one: the latter counts where the
former has nothing. -/
theorem lookup_putAll {additions : Members} (h : (additions.map Prod.fst).Nodup)
    (members : Members) (name : Text) :
    (members.putAll additions).lookup name = (additions.lookup name).or (members.lookup name) := by
  induction additions generalizing members with
  | nil => rfl
  | cons addition rest ih =>
    obtain ⟨name', value'⟩ := addition
    rw [List.map_cons, List.nodup_cons] at h
    have hput : members.putAll ((name', value') :: rest) = (members.put name' value').putAll rest :=
      rfl
    rw [hput, ih h.2, lookup_cons]
    split
    next hname =>
      -- Names are distinct, so nothing behind it puts the value over.
      have hrest : lookup rest name = none := lookup_eq_none fun member hmember heq =>
        h.1 (List.mem_map.2 ⟨member, hmember, heq.trans hname⟩)
      rw [hrest, hname, lookup_put_self]
      rfl
    next hname => rw [lookup_put_of_ne members value' hname]

end Flowchart.Json.Members
