import Flowchart.Json.Reader
import Flowchart.Proofs.Except
import Flowchart.Proofs.Json.Members

/-!
# `Flowchart.Proofs.Json.Reader`: what a reader makes of objects

A text may give several members of an object the same name, but the object
that is read has one of each name: a later member takes the place of an
earlier one. So whatever is looked up in a value that was read does not
depend on the order of its members.

* `Unambiguous`: values in which no object has two members of one name;
* `Reader.Unambiguous`: readers that have come upon such values only;
* `unambiguous_step`: one code point more keeps a reader so;
* `unambiguous_of_read`: whatever is read is unambiguous.
-/

set_option autoImplicit false

namespace Flowchart.Json

/-- A value in which no object has two members of one name. -/
inductive Unambiguous : Json → Prop where
  | null : Unambiguous .null
  | bool (value : Bool) : Unambiguous (.bool value)
  | number (value : Number.Scalar) : Unambiguous (.number value)
  | string (value : Text) : Unambiguous (.string value)
  | array {items : List Json} (items_unambiguous : ∀ item ∈ items, Unambiguous item) :
      Unambiguous (.array items)
  | object {members : Members} (nodup : (members.map Prod.fst).Nodup)
      (values : ∀ member ∈ members, Unambiguous member.2) : Unambiguous (.object members)

namespace Unambiguous

variable {members : Members} {name : Text} {value : Json}

/-- No two members of such an object have the same name. -/
theorem nodup (h : Unambiguous (.object members)) : (members.map Prod.fst).Nodup := by
  cases h
  assumption

/-- The values of such an object are such values. -/
theorem values (h : Unambiguous (.object members)) : ∀ member ∈ members, Unambiguous member.2 := by
  cases h
  assumption

/-- What is found in an object is as unambiguous as the object. -/
theorem of_lookup (h : Unambiguous (.object members)) (hlookup : members.lookup name = some value) :
    value.Unambiguous :=
  h.values (name, value) (Members.mem_of_lookup hlookup)

/-- A member that is put into such an object takes the place of one of its name.
-/
theorem put (h : Unambiguous (.object members)) (name : Text) (hvalue : value.Unambiguous) :
    Unambiguous (.object (members.put name value)) := by
  refine .object ?_ ?_
  · rw [Members.keys_put]
    split
    next => exact h.nodup
    next hname => exact List.nodup_append.2 ⟨h.nodup, by simp, by grind⟩
  · intro member hmember
    rcases Members.mem_of_mem_put hmember with hmember | rfl
    · exact h.values member hmember
    · exact hvalue

end Unambiguous

/-! ### Words -/

/-- A number has no names. -/
theorem unambiguous_of_numeralValue {word : Text} {value : Json}
    (h : numeralValue word = .ok value) : value.Unambiguous := by
  simp only [numeralValue, pure_bind] at h
  split at h
  · cases h
  · split at h
    · split at h
      · cases h
      · split at h
        · cases h
          exact .number _
        · cases h
    · split at h
      · cases h
        exact .number _
      · cases h

/-- What a word stands for has no names. -/
theorem unambiguous_of_wordValue {word : Text} {value : Json} (h : wordValue word = .ok value) :
    value.Unambiguous := by
  unfold wordValue at h
  split at h
  next found hfound =>
    cases h
    have hmem := Members.mem_of_lookup hfound
    simp only [namedValues, List.mem_cons, Prod.mk.injEq, List.not_mem_nil, or_false] at hmem
    rcases hmem with ⟨-, rfl⟩ | ⟨-, rfl⟩ | ⟨-, rfl⟩ | ⟨-, rfl⟩ | ⟨-, rfl⟩ | ⟨-, rfl⟩
    · exact .null
    · exact .bool true
    · exact .bool false
    all_goals exact .number _
  next => exact unambiguous_of_numeralValue h

/-! ### The reader -/

/-- An array or object that is still open holds unambiguous values so far. -/
def Frame.Unambiguous : Frame → Prop
  | .array items => ∀ item ∈ items, item.Unambiguous
  | .object members | .member members _ => Json.Unambiguous (.object members)

namespace Reader

variable {r r' : Reader} {value : Json}

/-- A reader that has come upon unambiguous values only. -/
structure Unambiguous (r : Reader) : Prop where
  frames : ∀ frame ∈ r.frames, frame.Unambiguous
  done : ∀ value, r.expected = .done value → value.Unambiguous

/-- The token that a reader is inside of says nothing about values. -/
theorem Unambiguous.withToken (h : r.Unambiguous) (token : Token) :
    Reader.Unambiguous { r with token } :=
  ⟨h.frames, h.done⟩

/-- In the beginning nothing has been read. -/
theorem unambiguous_initial : initial.Unambiguous :=
  ⟨nofun, nofun⟩

/-- A value that is put where it belongs leaves no name repeated. -/
theorem unambiguous_put (hframes : ∀ frame ∈ r.frames, frame.Unambiguous)
    (hvalue : value.Unambiguous) (h : r.put value = .ok r') : r'.Unambiguous := by
  unfold put at h
  split at h
  -- The value is the whole one, an item of an array, or the value of a member.
  next =>
    cases h
    refine ⟨nofun, ?_⟩
    rintro _ ⟨⟩
    exact hvalue
  next items frames heq =>
    rw [heq] at hframes
    obtain ⟨hitems, hrest⟩ := List.forall_mem_cons.1 hframes
    cases h
    refine ⟨List.forall_mem_cons.2 ⟨?_, hrest⟩, nofun⟩
    exact List.forall_mem_cons.2 ⟨hvalue, hitems⟩
  next members name frames heq =>
    rw [heq] at hframes
    obtain ⟨hmembers, hrest⟩ := List.forall_mem_cons.1 hframes
    cases h
    exact ⟨List.forall_mem_cons.2 ⟨Json.Unambiguous.put hmembers name hvalue, hrest⟩, nofun⟩
  next => cases h

/-- A word that is taken leaves no name repeated. -/
theorem unambiguous_takeWord {word : Text} (hr : r.Unambiguous)
    (h : r.takeWord word = .ok r') : r'.Unambiguous := by
  unfold takeWord at h
  split at h
  · obtain ⟨value, hvalue, h⟩ := bind_eq_ok.1 h
    exact unambiguous_put hr.frames (unambiguous_of_wordValue hvalue) h
  · cases h

/-- A string that is taken leaves no name repeated. -/
theorem unambiguous_takeString {text : Text} (hr : r.Unambiguous)
    (h : r.takeString text = .ok r') : r'.Unambiguous := by
  have hframes := hr.frames
  unfold takeString at h
  split at h
  case h_1 | h_2 => exact unambiguous_put hframes (.string text) h
  case h_3 | h_4 =>
    rename_i heq
    rw [heq] at hframes
    obtain ⟨hmembers, hrest⟩ := List.forall_mem_cons.1 hframes
    cases h
    exact ⟨List.forall_mem_cons.2 ⟨hmembers, hrest⟩, nofun⟩
  case h_5 => cases h

/-- A mark that is taken leaves no name repeated. -/
theorem unambiguous_takeMark {c : CodePoint} (hr : r.Unambiguous)
    (h : r.takeMark c = .ok r') : r'.Unambiguous := by
  have hframes := hr.frames
  unfold takeMark at h
  split at h
  -- what is opened is empty
  case h_1 | h_2 =>
    cases h
    have hempty : Frame.Unambiguous (.array []) := fun _ hitem => nomatch hitem
    exact ⟨List.forall_mem_cons.2 ⟨hempty, hframes⟩, nofun⟩
  case h_3 | h_4 =>
    cases h
    exact ⟨List.forall_mem_cons.2 ⟨Json.Unambiguous.object .nil nofun, hframes⟩, nofun⟩
  -- what is closed is a value, and taken by what it lies in
  case h_5 | h_6 =>
    rename_i heq
    rw [heq] at hframes
    obtain ⟨hitems, hrest⟩ := List.forall_mem_cons.1 hframes
    exact unambiguous_put hrest (.array fun item hitem => hitems item (List.mem_reverse.1 hitem)) h
  case h_7 | h_8 =>
    rename_i heq
    rw [heq] at hframes
    obtain ⟨hmembers, hrest⟩ := List.forall_mem_cons.1 hframes
    exact unambiguous_put hrest hmembers h
  -- the other marks change what is expected
  case h_9 =>
    cases h
    exact ⟨hframes, nofun⟩
  case h_10 | h_11 =>
    rename_i heq
    cases h
    exact ⟨heq ▸ hframes, nofun⟩
  case h_12 => cases h

/-- A character outside of strings leaves no name repeated. -/
theorem unambiguous_takeOutside {c : CodePoint} (hr : r.Unambiguous)
    (h : r.takeOutside c = .ok r') : r'.Unambiguous := by
  unfold takeOutside at h
  split at h
  · cases h
    exact hr
  · split at h
    · cases h
      exact hr.withToken _
    · split at h
      · cases h
        exact hr.withToken _
      · exact unambiguous_takeMark hr h

/-- One code point more keeps a reader unambiguous. -/
theorem unambiguous_step {c : CodePoint} (hr : r.Unambiguous) (h : r.step c = .ok r') :
    r'.Unambiguous := by
  unfold step at h
  split at h
  next => exact unambiguous_takeOutside hr h
  -- Inside a token only the token changes, unless it ends.
  next read _ =>
    split at h
    · cases h
      exact hr.withToken _
    · obtain ⟨behind, hbehind, h⟩ := bind_eq_ok.1 h
      exact unambiguous_takeOutside (unambiguous_takeWord hr hbehind) h
  next read half _ =>
    split at h
    · exact unambiguous_takeString hr h
    · split at h
      · cases h
        exact hr.withToken _
      · split at h <;> cases h
        exact hr.withToken _
  next read half _ =>
    split at h
    · cases h
      exact hr.withToken _
    · split at h <;> cases h
      exact hr.withToken _
  next read half unit missing _ =>
    split at h <;> cases h
    exact hr.withToken _

/-- A whole text leaves no name repeated. -/
theorem unambiguous_foldlM {text : Text} (hr : r.Unambiguous)
    (h : text.foldlM step r = .ok r') : r'.Unambiguous := by
  induction text generalizing r with
  | nil =>
    cases h
    exact hr
  | cons c text ih =>
    rw [List.foldlM_cons] at h
    obtain ⟨next, hnext, h⟩ := bind_eq_ok.1 h
    exact ih (unambiguous_step hr hnext) h

/-- What has been read in the end has no name repeated. -/
theorem unambiguous_finish (hr : r.Unambiguous) (h : r.finish = .ok value) :
    value.Unambiguous := by
  unfold finish at h
  dsimp only at h
  split at h
  next =>
    rw [ok_bind] at h
    split at h <;> cases h
    exact hr.done value ‹_›
  next =>
    obtain ⟨last, hlast, h⟩ := bind_eq_ok.1 h
    split at h <;> cases h
    exact (unambiguous_takeWord hr hlast).done value ‹_›
  next => cases h

end Reader

/-- Whatever is read is unambiguous. -/
theorem unambiguous_of_read {text : Text} {value : Json} (h : read text = .ok value) :
    value.Unambiguous := by
  obtain ⟨last, hlast, hfinish⟩ := bind_eq_ok.1 h
  exact Reader.unambiguous_finish (Reader.unambiguous_foldlM Reader.unambiguous_initial hlast)
    hfinish

end Flowchart.Json
