import Flowchart.Draft.Wording
import Flowchart.Proofs.Text.Line

/-!
# `Flowchart.Proofs.Text.Shortened`: texts that are short enough

What stands for a text in a label is a trimmed line: no blanks are left at its
ends, and the mark of a cut brings none. So to shorten it again can only change
it if it is still too long.

With a limit of two or more it never is. A limit of one leaves no room for the
mark, and the cut then counts from the end of the line: it takes one code point
away and puts two in its place. So a line that is too long gets longer, and
longer again each time it is shortened.

* `Trimmed`, `trimmed_shorten`: no blanks at the ends;
* `shorten_eq_self`, `headline_shorten`: what is left alone;
* `length_shorten_one`: how long a line gets with a limit of one;
* `shorten_within_limit`: when a limit is kept to.
-/

set_option autoImplicit false

namespace Flowchart.Text

/-- A text neither starts nor ends with a blank. -/
structure Trimmed (text : Text) : Prop where
  head : ∀ c ∈ text.head?, isBlank c = false
  last : ∀ c ∈ text.getLast?, isBlank c = false

variable {text line : Text} {n : Int}

/-! ### Trimmed lines -/

/-- What has been trimmed is trimmed. -/
theorem trimmed_trim (text : Text) : Trimmed (trim text) := by
  constructor
  · intro c hc
    -- What is left of a row starts as the row does.
    have hfront : trim text <+: trimStart text := List.rdropWhile_prefix isBlank _
    have hhead : (trimStart text).head? = some c := by
      obtain ⟨rest, hrest⟩ := hfront
      rw [← hrest, List.head?_append, Option.mem_def.1 hc, Option.some_or]
    have hstart := List.head?_dropWhile_not isBlank text
    rw [show text.dropWhile isBlank = trimStart text from rfl, hhead] at hstart
    simpa using hstart
  · intro c hc
    obtain ⟨hne, rfl⟩ := List.mem_getLast?_eq_getLast hc
    exact Bool.eq_false_iff.2 (List.rdropWhile_last_not isBlank (trimStart text) hne)

/-- Nothing is left to trim off. -/
theorem Trimmed.trim_eq (h : Trimmed text) : trim text = text := by
  have hstart : trimStart text = text := by
    cases text with
    | nil => rfl
    | cons c rest => exact List.dropWhile_cons_of_neg (by simp [h.head c rfl])
  show (trimStart text).rdropWhile isBlank = text
  rw [hstart]
  refine List.rdropWhile_eq_self_iff.2 ?_
  intro hne
  simp [h.last _ (List.getLast?_eq_some_getLast hne)]

/-- A headline is trimmed. -/
theorem trimmed_headline (text : Text) : Trimmed (headline text) :=
  trimmed_trim _

/-- A trimmed line is its own headline. -/
theorem headline_eq_self (hline : IsLine text) (h : Trimmed text) : headline text = text := by
  rw [headline, firstLine_eq_self hline, h.trim_eq]

/-- A cut from the front on. -/
theorem slice_zero (text : Text) (stop : Int) :
    slice text 0 stop = text.take (place text.length stop) := by
  simp [slice, place]

/-- There are no blanks in the mark of a cut. -/
theorem trimmed_mark : Trimmed ".." := by
  have hdot : isBlank (CodePoint.ofChar '.') = false := by decide
  constructor
  · intro c hc
    obtain rfl : CodePoint.ofChar '.' = c := Option.some.inj hc
    exact hdot
  · intro c hc
    obtain rfl : CodePoint.ofChar '.' = c := Option.some.inj hc
    exact hdot

/-- A trimmed line that is cut is still trimmed: it starts as it did or with
the mark, and it ends with the mark. -/
theorem Trimmed.cutLine (h : Trimmed line) (n : Int) : Trimmed (cutLine n line) := by
  rw [Text.cutLine, slice_zero]
  generalize place line.length (n - 2) = kept
  constructor
  · intro c hc
    rw [Option.mem_def, List.head?_append, Option.or_eq_some_iff] at hc
    rcases hc with hc | ⟨_, hc⟩
    -- What is left starts as the line did, or is the mark alone.
    · rw [List.head?_take] at hc
      split at hc
      · cases hc
      · exact h.head c hc
    · exact trimmed_mark.head c hc
  · intro c hc
    rw [Option.mem_def, List.getLast?_append_of_ne_nil _ (by decide)] at hc
    exact trimmed_mark.last c hc

/-- A shortened text is trimmed. -/
theorem trimmed_shorten (n : Int) (text : Text) : Trimmed (shorten n text) := by
  have hline := trimmed_headline text
  simp only [shorten]
  split
  · exact hline.cutLine n
  · exact hline

/-- A shortened text is its own headline. -/
theorem headline_shorten (n : Int) (text : Text) :
    headline (shorten n text) = shorten n text :=
  headline_eq_self (isLine_shorten n text) (trimmed_shorten n text)

/-! ### Lengths -/

/-- A headline in the limit stands for its text as it is. -/
theorem shorten_eq_headline (h : ((headline text).length : Int) ≤ n) :
    shorten n text = headline text :=
  if_neg (by omega)

/-- To shorten a text again changes nothing if it is in the limit. -/
theorem shorten_shorten (h : ((shorten n text).length : Int) ≤ n) :
    shorten n (shorten n text) = shorten n text := by
  have hline := headline_shorten n text
  rw [shorten_eq_headline (by rw [hline]; exact h), hline]

/-- With a limit of one, a line that is too long gets longer. -/
theorem length_shorten_one (h : 1 < (headline text).length) :
    (shorten 1 text).length = (headline text).length + 1 := by
  have hcut : shorten 1 text = cutLine 1 (headline text) := if_pos (by omega)
  have hmark : (".." : Text).length = 2 := by decide
  rw [hcut, cutLine, slice_zero, List.length_append, List.length_take, hmark]
  simp only [place]
  split <;> omega

/-- With a limit of one, a line that is too long never gets shorter. -/
theorem shorten_one_ne (h : 1 < (headline text).length) :
    shorten 1 (shorten 1 text) ≠ shorten 1 text := by
  intro hsame
  have hline := headline_shorten 1 text
  have hlength := length_shorten_one h
  have hagain : (shorten 1 (shorten 1 text)).length = (headline (shorten 1 text)).length + 1 :=
    length_shorten_one (by rw [hline]; omega)
  rw [hsame, hline] at hagain
  omega

/-- A limit is kept to if it leaves room for the mark of a cut, or if there is
nothing to cut. -/
theorem length_shorten_le_iff (hn : 1 ≤ n) :
    ((shorten n text).length : Int) ≤ n ↔ 2 ≤ n ∨ (headline text).length ≤ 1 := by
  by_cases hroom : 2 ≤ n
  · exact iff_of_true (shortLine_shorten hroom text).length_le (.inl hroom)
  · obtain rfl : n = 1 := by omega
    by_cases hlong : 1 < (headline text).length
    · rw [length_shorten_one hlong]
      omega
    · rw [shorten_eq_headline (by omega)]
      omega

/-- Whatever a limit of one or more is, what stands for a text is a line with
no blanks at its ends. It is in the limit, and stands for itself, exactly if
the limit is two or more or at most one code point is left to cut. -/
theorem shorten_within_limit (hn : 1 ≤ n) (text : Text) :
    shortenBy (.int n) text = .ok (shorten n text) ∧
      IsLine (shorten n text) ∧ Trimmed (shorten n text) ∧
      (((shorten n text).length : Int) ≤ n ↔ 2 ≤ n ∨ (headline text).length ≤ 1) ∧
      (shorten n (shorten n text) = shorten n text ↔ 2 ≤ n ∨ (headline text).length ≤ 1) := by
  refine ⟨shortenBy_int n text, isLine_shorten n text, trimmed_shorten n text,
    length_shorten_le_iff hn, ?_⟩
  rw [← length_shorten_le_iff hn]
  constructor
  · intro hsame
    by_contra hlong
    -- Only a limit of one is not kept to.
    have hnot : ¬(2 ≤ n ∨ (headline text).length ≤ 1) := mt (length_shorten_le_iff hn).2 hlong
    obtain rfl : n = 1 := by omega
    exact shorten_one_ne (by omega) hsame
  · exact shorten_shorten

/-- With a limit of two, nothing but the mark is left of a line that is cut. -/
theorem shorten_within_limit_two :
    (1 : Int) ≤ 2 ∧ shorten 2 "  if (a)\nb" = ".." ∧ Trimmed ".." ∧ shorten 2 ".." = ".." := by
  have hshort : shorten 2 "  if (a)\nb" = ".." := by decide
  have hlimit := shorten_within_limit (n := 2) (by decide) "  if (a)\nb"
  rw [hshort] at hlimit
  exact ⟨by decide, hshort, hlimit.2.2.1, hlimit.2.2.2.2.2 (.inl (by decide))⟩

/-- With a limit of one, two code points become three, and these four. -/
theorem shorten_one_grows :
    shorten 1 "ab" = "a.." ∧ ¬(("a.." : Text).length : Int) ≤ 1 ∧
      shorten 1 "a.." = "a..." ∧ ("a..." : Text) ≠ "a.." := by
  decide

end Flowchart.Text
