import Mathlib.Data.List.DropRight
import Flowchart.Text.Line

/-!
# `Flowchart.Proofs.Text.Line`: what a label can look like

Whatever a text is, what stands for it in a label is a single line: it is cut
out of the first line, and the mark of a cut has no line break in it. With a
limit of two or more it is no longer than the limit.

Such a text is empty where there is nothing but blanks in the first line, and
nowhere else: it starts and ends with what is no blank, and a cut keeps its
mark. So to shorten it again makes it no emptier. Of several such texts with
blanks between them this is not true: two empty ones make a blank.

* `IsLine`, `isLine_shorten`: a single line;
* `ShortLine`, `shortLine_shorten`: how long it is;
* `Blank`, `blank_shorten_iff`, `shorten_eq_nil_iff`: when it is empty;
* `isLine_joined`, `blank_joined_iff`, `joined_eq_nil_iff`: several of them.
-/

set_option autoImplicit false

namespace Flowchart.Text

/-- There is no line break in a text. -/
def IsLine (text : Text) : Prop :=
  CodePoint.ofChar '\n' ∉ text

instance (text : Text) : Decidable (IsLine text) :=
  inferInstanceAs (Decidable (_ ∉ _))

/-- A single line that is no longer than a limit. -/
structure ShortLine (n : Int) (text : Text) : Prop where
  line : IsLine text
  length_le : (text.length : Int) ≤ n

instance (n : Int) (text : Text) : Decidable (ShortLine n text) :=
  decidable_of_iff (IsLine text ∧ (text.length : Int) ≤ n)
    ⟨fun h => ⟨h.1, h.2⟩, fun h => ⟨h.line, h.length_le⟩⟩

/-- There is nothing but blanks in a text. -/
def Blank (text : Text) : Prop :=
  ∀ c ∈ text, isBlank c = true

section

variable {text text' separator : Text} {texts : List Text} {n : Int}

/-! ### Single lines -/

/-- Two lines make one line. -/
theorem IsLine.append (h : IsLine text) (h' : IsLine text') : IsLine (text ++ text') :=
  fun hmem => (List.mem_append.1 hmem).elim h h'

/-- Some characters of a line make a line. -/
theorem IsLine.of_subset (h : IsLine text) (hsubset : text' ⊆ text) : IsLine text' :=
  fun hmem => h (hsubset hmem)

/-- The first line of a text is one. -/
theorem isLine_firstLine (text : Text) : IsLine (firstLine text) := fun hmem => by
  simpa using List.mem_takeWhile_imp hmem

/-- A line is its own first line. -/
theorem firstLine_eq_self (h : IsLine text) : firstLine text = text := by
  refine List.takeWhile_eq_self_iff.2 fun c hc => ?_
  simpa using fun heq : c = CodePoint.ofChar '\n' => h (heq ▸ hc)

/-- Trimming takes characters away. -/
theorem trim_sublist (text : Text) : (trim text).Sublist text :=
  (List.rdropWhile_prefix isBlank _).sublist.trans (List.dropWhile_sublist isBlank)

/-- A headline is a line. -/
theorem isLine_headline (text : Text) : IsLine (headline text) :=
  (isLine_firstLine text).of_subset (trim_sublist _).subset

/-- A slice takes characters away. -/
theorem slice_sublist (text : Text) (start stop : Int) : (slice text start stop).Sublist text :=
  (List.drop_sublist _ _).trans (List.take_sublist _ _)

/-- Whatever the limit, what stands for a text is a single line. -/
theorem isLine_shorten (n : Int) (text : Text) : IsLine (shorten n text) := by
  have hline := isLine_headline text
  simp only [shorten]
  split
  · exact (hline.of_subset (slice_sublist _ _ _).subset).append (by decide)
  · exact hline

/-- What stands for a text is no longer than a limit of two or more. -/
theorem shortLine_shorten (h : 2 ≤ n) (text : Text) : ShortLine n (shorten n text) := by
  refine ⟨isLine_shorten n text, ?_⟩
  simp only [shorten]
  split
  · have hmark : (".." : Text).length = 2 := by decide
    rw [cutLine, List.length_append, length_slice, hmark]
    simp only [place]
    split <;> omega
  · omega

/-- A line that is short for a limit is so for greater ones. -/
theorem ShortLine.mono {m : Int} (h : ShortLine m text) (hmn : m ≤ n) : ShortLine n text :=
  ⟨h.line, Int.le_trans h.length_le hmn⟩

/-- Two short lines make a line that is short for both limits together. -/
theorem ShortLine.append {m : Int} (h : ShortLine m text) (h' : ShortLine n text') :
    ShortLine (m + n) (text ++ text') := by
  refine ⟨h.line.append h'.line, ?_⟩
  rw [List.length_append, Int.natCast_add]
  exact Int.add_le_add h.length_le h'.length_le

/-! ### Blank texts -/

/-- A space is blank. -/
theorem blank_space : Blank " " := fun c hc => by
  obtain rfl : c = CodePoint.ofChar ' ' := List.mem_singleton.1 hc
  decide

/-- All but blanks is trimmed off. -/
theorem trim_eq_nil_iff : trim text = [] ↔ Blank text := by
  have hend : trim text = [] ↔ Blank (trimStart text) := List.rdropWhile_eq_nil_iff
  rw [hend]
  refine ⟨fun h c hc => ?_, fun h c hc => h c ((List.dropWhile_sublist _).subset hc)⟩
  rw [← List.takeWhile_append_dropWhile (p := isBlank) (l := text)] at hc
  rcases List.mem_append.1 hc with hc | hc
  · exact List.mem_takeWhile_imp hc
  · exact h c hc

/-- What has been trimmed is blank only if nothing is left. -/
theorem blank_trim_iff : Blank (trim text) ↔ trim text = [] := by
  refine ⟨fun h => ?_, fun h => by simp [h, Blank]⟩
  -- The last code point that is left is no blank.
  refine Decidable.byContradiction fun hne => ?_
  have hlast : ¬isBlank ((trim text).getLast hne) = true :=
    List.rdropWhile_last_not isBlank (trimStart text) hne
  exact hlast (h _ (List.getLast_mem hne))

/-- A headline is empty if the first line is blank. -/
theorem headline_eq_nil_iff : headline text = [] ↔ Blank (firstLine text) :=
  trim_eq_nil_iff

/-- Behind a cut there is its mark. -/
theorem not_blank_cutLine (n : Int) (line : Text) : ¬Blank (cutLine n line) := fun h => by
  have hmark := h (CodePoint.ofChar '.') (List.mem_append_right _ (by decide))
  revert hmark
  decide

/-- What stands for a text is blank only if it is empty. -/
theorem blank_shorten_iff : Blank (shorten n text) ↔ shorten n text = [] := by
  simp only [shorten]
  split
  · refine iff_of_false (not_blank_cutLine n _) fun h => not_blank_cutLine n (headline text) ?_
    simp [h, Blank]
  · exact blank_trim_iff

/-- What stands for a text is empty only if nothing was left of its first line
before it was cut. -/
theorem shorten_eq_nil_iff (h : 0 ≤ n) : shorten n text = [] ↔ headline text = [] := by
  simp only [shorten]
  split
  · rename_i hlong
    refine iff_of_false (fun hnil => not_blank_cutLine n (headline text) (by simp [hnil, Blank]))
      fun hnil => ?_
    rw [hnil, List.length_nil] at hlong
    omega
  · exact Iff.rfl

/-! ### Several texts -/

/-- The first of several texts is followed by a separator and the rest. -/
theorem joined_cons_cons (separator text next : Text) (texts : List Text) :
    joined separator (text :: next :: texts) =
      text ++ (separator ++ joined separator (next :: texts)) := rfl

/-- What is in several texts put together is in one of them or in what is put
between them. -/
theorem mem_joined {c : CodePoint} (h : c ∈ joined separator texts) :
    c ∈ separator ∨ ∃ text ∈ texts, c ∈ text := by
  induction texts with
  | nil => cases h
  | cons text texts ih =>
    cases texts with
    | nil => exact .inr ⟨text, List.mem_singleton_self text, by simpa [joined] using h⟩
    | cons next texts =>
      rw [joined_cons_cons, List.mem_append, List.mem_append] at h
      rcases h with h | h | h
      · exact .inr ⟨text, List.mem_cons_self, h⟩
      · exact .inl h
      · obtain h | ⟨other, hother, h⟩ := ih h
        · exact .inl h
        · exact .inr ⟨other, List.mem_cons_of_mem _ hother, h⟩

/-- Each text is there in the joined texts. -/
theorem subset_joined (h : text ∈ texts) : text ⊆ joined separator texts := by
  induction texts with
  | nil => cases h
  | cons first texts ih =>
    cases texts with
    | nil =>
      rw [List.mem_singleton.1 h]
      simp [joined]
    | cons next texts =>
      rw [joined_cons_cons]
      rcases List.mem_cons.1 h with rfl | h
      · exact List.subset_append_left _ _
      · exact fun c hc => List.mem_append_right _ (List.mem_append_right _ (ih h hc))

/-- Lines that are joined by a line make a line. -/
theorem isLine_joined (hseparator : IsLine separator) (h : ∀ text ∈ texts, IsLine text) :
    IsLine (joined separator texts) := fun hmem => by
  rcases mem_joined hmem with hmem | ⟨text, htext, hmem⟩
  · exact hseparator hmem
  · exact h text htext hmem

/-- Texts that are joined by something blank are blank if all of them are. -/
theorem blank_joined_iff (hseparator : Blank separator) :
    Blank (joined separator texts) ↔ ∀ text ∈ texts, Blank text := by
  refine ⟨fun h text htext c hc => h c (subset_joined htext hc), fun h c hc => ?_⟩
  rcases mem_joined hc with hc | ⟨text, htext, hc⟩
  · exact hseparator c hc
  · exact h text htext c hc

/-- Of several texts put together nothing is left only if there is at most one,
and that is empty. -/
theorem joined_eq_nil_iff (hseparator : separator ≠ []) :
    joined separator texts = [] ↔ texts.length ≤ 1 ∧ ∀ text ∈ texts, text = [] := by
  cases texts with
  | nil => simp [joined]
  | cons text texts =>
    cases texts with
    | nil => simp [joined]
    | cons next texts => simp [joined_cons_cons, hseparator]

end

end Flowchart.Text
