import Mathlib.Data.List.DropRight
import Mathlib.Data.Nat.Find
import Flowchart.Metrics.Font
import Flowchart.Proofs.Number.Decimal

/-!
# `Flowchart.Proofs.Metrics.Font`: where the size of a font stands

The size of a font is looked for from the front: at each place, as many digits
are taken as there are, and then a fraction if the unit comes behind it and not
before. What is found can be told from where it ends instead. A size ends with a
digit that has the unit right behind it, and there are no letters in a size. So
the first size is the one that ends first, at the first digit in front of a
unit.

Of all sizes that end there, the one is found that starts first, and so it is
the longest. Its last digits are all digits in front of its end. If these have a
point in front of them, and that has digits in front of it, then those digits
are in front of the point of the size; otherwise it has none. So the size of
`1.5.2px` is `5.2`, and that of `.5px` is `5`.

* `sizeAtFront?_eq_some_iff`: what is found at one place;
* `EndsSize`, `EndsFirst`: where sizes end;
* `Longest`, `sizeAtEnd`, `longest_sizeAtEnd`: the longest size that ends there;
* `firstSize?_of_endsFirst`: what is found in a font;
* `fontSize_first`: the size of a font.
-/

set_option autoImplicit false

namespace Flowchart.Metrics

open Text

/-! ### Sizes as they are written -/

/-- The point between the digits of a size. -/
def point : CodePoint := '.'

namespace PixelSize

/-- A size as it is written. There is only a point if there are digits behind
it. -/
def written (size : PixelSize) : Text :=
  size.whole ++ if size.fraction = [] then [] else point :: size.fraction

/-- A size that can be written: there is a digit, and there is nothing else. -/
structure IsNumeral (size : PixelSize) : Prop where
  whole_ne : size.whole ≠ []
  whole : ∀ c ∈ size.whole, isDigit c = true
  fraction : ∀ c ∈ size.fraction, isDigit c = true

variable {size other : PixelSize}

/-- A size is written with something. -/
theorem written_ne (h : size.IsNumeral) : size.written ≠ [] := by
  simp [written, h.whole_ne]

/-- The unit has no letters in a size. -/
theorem not_mem_written (h : size.IsNumeral) : CodePoint.ofChar 'p' ∉ size.written := by
  have hletter : isDigit (CodePoint.ofChar 'p') = false := by decide
  intro hmem
  rw [written, List.mem_append] at hmem
  rcases hmem with hmem | hmem
  · rw [h.whole _ hmem] at hletter
    cases hletter
  · split at hmem
    · cases hmem
    · rcases List.mem_cons.1 hmem with heq | hmem
      · revert heq
        decide
      · rw [h.fraction _ hmem] at hletter
        cases hletter

/-- A size ends with a digit. -/
theorem exists_last (h : size.IsNumeral) :
    ∃ front c, size.written = front ++ [c] ∧ isDigit c = true := by
  by_cases hfraction : size.fraction = []
  · refine ⟨size.whole.dropLast, size.whole.getLast h.whole_ne, ?_,
      h.whole _ (List.getLast_mem h.whole_ne)⟩
    rw [List.dropLast_concat_getLast, written, if_pos hfraction, List.append_nil]
  · refine ⟨size.whole ++ point :: size.fraction.dropLast, size.fraction.getLast hfraction, ?_,
      h.fraction _ (List.getLast_mem hfraction)⟩
    rw [List.append_assoc, List.cons_append, List.dropLast_concat_getLast, written,
      if_neg hfraction]

end PixelSize

variable {size other : PixelSize} {text digits rest font : Text} {i : Nat}

/-! ### A size at the front -/

/-- Digits in front of another character are taken. -/
theorem takeWhile_digits {c : CodePoint} (h : ∀ d ∈ digits, isDigit d = true)
    (hc : isDigit c = false) : (digits ++ c :: rest).takeWhile isDigit = digits := by
  rw [List.takeWhile_append_of_pos h, List.takeWhile_cons_of_neg (by simp [hc]), List.append_nil]

/-- Digits in front of another character are dropped. -/
theorem dropWhile_digits {c : CodePoint} (h : ∀ d ∈ digits, isDigit d = true)
    (hc : isDigit c = false) : (digits ++ c :: rest).dropWhile isDigit = c :: rest := by
  rw [List.dropWhile_append_of_pos h, List.dropWhile_cons_of_neg (by simp [hc])]

/-- The unit, in the letters that it consists of. -/
theorem unit_eq : ofString "px" = [CodePoint.ofChar 'p', CodePoint.ofChar 'x'] := by
  decide

/-- The unit is a prefix. -/
theorem startsWithUnit_iff : startsWithUnit text = true ↔ ofString "px" <+: text :=
  List.isPrefixOf_iff_prefix

/-- A size that is written in front of its unit is found. -/
theorem sizeAtFront?_of_written (h : size.IsNumeral)
    (hwritten : size.written ++ ofString "px" <+: text) : sizeAtFront? text = some size := by
  obtain ⟨behind, rfl⟩ := hwritten
  obtain ⟨whole, fraction⟩ := size
  have hwhole : whole.isEmpty = false := by simpa using h.whole_ne
  have hletter : isDigit (CodePoint.ofChar 'p') = false := by decide
  have hunit : startsWithUnit (CodePoint.ofChar 'p' :: CodePoint.ofChar 'x' :: behind) = true := by
    simp [startsWithUnit, unit_eq]
  -- Digits end at the unit or at the point, since neither starts with a digit.
  by_cases hfraction : fraction = []
  · subst hfraction
    have htext : PixelSize.written ⟨whole, []⟩ ++ ofString "px" ++ behind =
        whole ++ CodePoint.ofChar 'p' :: CodePoint.ofChar 'x' :: behind := by
      simp [PixelSize.written, unit_eq]
    simp only [sizeAtFront?, htext, takeWhile_digits h.whole hletter,
      dropWhile_digits h.whole hletter, hwhole, hunit]
    rfl
  · have hpoint : isDigit point = false := by decide
    have htext : PixelSize.written ⟨whole, fraction⟩ ++ ofString "px" ++ behind =
        whole ++ point :: (fraction ++ CodePoint.ofChar 'p' :: CodePoint.ofChar 'x' :: behind) := by
      simp [PixelSize.written, hfraction, unit_eq]
    have hpointed (xs : Text) : startsWithUnit (point :: xs) = false := rfl
    have hfull : fraction.isEmpty = false := by simpa using hfraction
    simp only [sizeAtFront?, htext, takeWhile_digits h.whole hpoint,
      dropWhile_digits h.whole hpoint, hwhole, hpointed, takeWhile_digits h.fraction hletter,
      dropWhile_digits h.fraction hletter, hfull, hunit]
    rfl

/-- What is found at the front is written there, in front of its unit. -/
theorem written_of_sizeAtFront? (h : sizeAtFront? text = some size) :
    size.IsNumeral ∧ size.written ++ ofString "px" <+: text := by
  have hdigits (xs : Text) : ∀ c ∈ xs.takeWhile isDigit, isDigit c = true := fun c hc =>
    List.mem_takeWhile_imp hc
  have htext := List.takeWhile_append_dropWhile (p := isDigit) (l := text)
  simp only [sizeAtFront?] at h
  split at h
  · cases h
  · rename_i hwhole
    have hne : text.takeWhile isDigit ≠ [] := by simpa using hwhole
    split at h
    -- The unit right behind the digits: there is no fraction.
    · rename_i hunit
      cases h
      refine ⟨⟨hne, hdigits text, by simp⟩, ?_⟩
      have hwritten := (List.prefix_append_right_inj (text.takeWhile isDigit)).2
        (startsWithUnit_iff.1 hunit)
      rw [htext] at hwritten
      simpa [PixelSize.written] using hwritten
    · split at h
      · cases h
      · rename_i first rest hrest
        split at h
        -- The unit behind a point and more digits.
        · rename_i hfraction
          cases h
          simp only [Bool.and_eq_true, beq_iff_eq] at hfraction
          obtain ⟨⟨hpoint, hnotEmpty⟩, hunit⟩ := hfraction
          have hfraction : rest.takeWhile isDigit ≠ [] := by simpa using hnotEmpty
          refine ⟨⟨hne, hdigits text, hdigits rest⟩, ?_⟩
          have hwritten := (List.prefix_append_right_inj (rest.takeWhile isDigit)).2
            (startsWithUnit_iff.1 hunit)
          rw [List.takeWhile_append_dropWhile] at hwritten
          have hbehind : first :: (rest.takeWhile isDigit ++ ofString "px") <+:
              text.dropWhile isDigit := by
            rw [hrest]
            exact List.cons_prefix_cons.2 ⟨rfl, hwritten⟩
          have hall := (List.prefix_append_right_inj (text.takeWhile isDigit)).2 hbehind
          rw [htext, hpoint] at hall
          simpa [PixelSize.written, hfraction, point] using hall
        · cases h

/-- At the front of a text a size is found if one is written there with the unit
behind it. -/
theorem sizeAtFront?_eq_some_iff : sizeAtFront? text = some size ↔
    size.IsNumeral ∧ size.written ++ ofString "px" <+: text := by
  constructor
  · exact written_of_sizeAtFront?
  · rintro ⟨h, hwritten⟩
    exact sizeAtFront?_of_written h hwritten

/-! ### Where sizes end -/

/-- At an index of a font stands a digit with the unit right behind it. -/
def EndsSize (font : Text) (i : Nat) : Prop :=
  (∃ c, font[i]? = some c ∧ isDigit c = true) ∧ startsWithUnit (font.drop (i + 1)) = true

/-- At an index of a font a size ends, and none ends in front of it. -/
structure EndsFirst (font : Text) (i : Nat) : Prop where
  ends : EndsSize font i
  first : ∀ j < i, ¬EndsSize font j

/-- Sizes end in the rest of a font where they end in the font. -/
theorem endsSize_succ {c : CodePoint} : EndsSize (c :: font) (i + 1) ↔ EndsSize font i := by
  simp [EndsSize]

/-- The first letter of the unit stands behind the end of a size. -/
theorem EndsSize.letter (h : EndsSize font i) : font[i + 1]? = some (CodePoint.ofChar 'p') := by
  obtain ⟨behind, hbehind⟩ := startsWithUnit_iff.1 h.2
  have hletter := congrArg (·[0]?) hbehind
  simpa [unit_eq] using hletter.symm

/-- A digit is in front of the unit at the end of a size that is written, and
nowhere in front of that. -/
theorem endsFirst_written (h : size.IsNumeral) (hwritten : size.written ++ ofString "px" <+: font) :
    EndsFirst font (size.written.length - 1) := by
  obtain ⟨behind, rfl⟩ := hwritten
  constructor
  · obtain ⟨front, c, hlast, hc⟩ := PixelSize.exists_last h
    have hunit : startsWithUnit (ofString "px" ++ behind) = true :=
      startsWithUnit_iff.2 (List.prefix_append _ _)
    rw [hlast]
    exact ⟨⟨c, by simp, hc⟩, by simpa using hunit⟩
  · intro j hj hends
    -- The letter behind the digit would be a letter of the size.
    have hinside : j + 1 < size.written.length := by omega
    have hletter := hends.letter
    rw [List.append_assoc, List.getElem?_append_left hinside] at hletter
    exact PixelSize.not_mem_written h (List.mem_of_getElem? hletter)

/-- Only one place is the first. -/
theorem EndsFirst.unique {j : Nat} (h : EndsFirst font i) (h' : EndsFirst font j) : i = j := by
  rcases Nat.lt_trichotomy i j with hlt | heq | hlt
  · exact absurd h.ends (h'.first i hlt)
  · exact heq
  · exact absurd h'.ends (h.first j hlt)

/-! ### The longest size -/

/-- A size ends where a text ends, and all others that do are ends of it. -/
structure Longest (text : Text) (size : PixelSize) : Prop where
  numeral : size.IsNumeral
  suffix : size.written <:+ text
  longest : ∀ other : PixelSize, other.IsNumeral → other.written <:+ text →
    other.written <:+ size.written

/-- The size that ends where a text ends: its last digits, with a point and the
digits in front of that if both are there. -/
def sizeAtEnd (text : Text) : PixelSize :=
  let last := text.rtakeWhile isDigit
  let rest := text.rdropWhile isDigit
  let whole := rest.dropLast.rtakeWhile isDigit
  if rest.getLast? = some point ∧ whole ≠ [] then ⟨whole, last⟩ else ⟨last, []⟩

/-- Digits at the end are taken, and then those in front of them. -/
theorem rtakeWhile_digits (h : ∀ d ∈ digits, isDigit d = true) :
    (text ++ digits).rtakeWhile isDigit = text.rtakeWhile isDigit ++ digits := by
  have hreverse : ∀ d ∈ digits.reverse, isDigit d = true := by simpa using h
  rw [List.rtakeWhile, List.reverse_append, List.takeWhile_append_of_pos hreverse,
    List.reverse_append, List.reverse_reverse]
  rfl

/-- Digits at the end are dropped. -/
theorem rdropWhile_digits (h : ∀ d ∈ digits, isDigit d = true) :
    (text ++ digits).rdropWhile isDigit = text.rdropWhile isDigit := by
  have hreverse : ∀ d ∈ digits.reverse, isDigit d = true := by simpa using h
  rw [List.rdropWhile, List.reverse_append, List.dropWhile_append_of_pos hreverse]
  rfl

/-- If a size with a fraction ends where a text ends, then the size at its end has
that fraction, and at most more digits in front. -/
theorem sizeAtEnd_of_fraction (h : size.IsNumeral) (hfraction : size.fraction ≠ [])
    (hsuffix : size.written <:+ text) :
    ∃ front, sizeAtEnd text = ⟨front ++ size.whole, size.fraction⟩ := by
  have hpoint : ¬isDigit point = true := by decide
  obtain ⟨front, rfl⟩ := hsuffix
  have htext : front ++ size.written = (front ++ size.whole ++ [point]) ++ size.fraction := by
    simp [PixelSize.written, hfraction]
  -- The digits at the end stop at the point, and those in front of it are the whole part.
  have hlast : (front ++ size.written).rtakeWhile isDigit = size.fraction := by
    rw [htext, rtakeWhile_digits h.fraction, List.rtakeWhile_concat_neg _ _ _ hpoint,
      List.nil_append]
  have hrest : (front ++ size.written).rdropWhile isDigit = front ++ size.whole ++ [point] := by
    rw [htext, rdropWhile_digits h.fraction, List.rdropWhile_concat_neg _ _ _ hpoint]
  refine ⟨front.rtakeWhile isDigit, ?_⟩
  simp only [sizeAtEnd, hlast, hrest, List.dropLast_concat, rtakeWhile_digits h.whole]
  rw [if_pos ⟨List.getLast?_concat, by simp [h.whole_ne]⟩]

/-- A size without a fraction that ends where a text ends is among the last
digits. -/
theorem suffix_last (h : size.IsNumeral) (hfraction : size.fraction = [])
    (hsuffix : size.written <:+ text) : size.written <:+ text.rtakeWhile isDigit := by
  have hwhole : size.written = size.whole := by simp [PixelSize.written, hfraction]
  rw [hwhole] at hsuffix ⊢
  obtain ⟨front, rfl⟩ := hsuffix
  rw [rtakeWhile_digits h.whole]
  exact List.suffix_append _ _

/-- The size at the end of a text that ends with a digit has all of the last
digits, and ends there itself. -/
theorem sizeAtEnd_ends (h : text.rtakeWhile isDigit ≠ []) : (sizeAtEnd text).IsNumeral ∧
    text.rtakeWhile isDigit <:+ (sizeAtEnd text).written ∧ (sizeAtEnd text).written <:+ text := by
  have hdigits (xs : Text) : ∀ c ∈ xs.rtakeWhile isDigit, isDigit c = true := fun c hc =>
    List.mem_rtakeWhile_imp hc
  have htext := List.rdropWhile_append_rtakeWhile (p := isDigit) (l := text)
  simp only [sizeAtEnd]
  split
  -- In front of the last digits there is a point, and in front of that a digit.
  · rename_i hsplit
    obtain ⟨hpoint, hwhole⟩ := hsplit
    have hrest := List.dropLast_append_getLast? point hpoint
    have hfront := List.rdropWhile_append_rtakeWhile (p := isDigit)
      (l := (text.rdropWhile isDigit).dropLast)
    refine ⟨⟨hwhole, hdigits _, hdigits text⟩, ?_, ?_⟩
    · rw [PixelSize.written, if_neg h]
      exact (List.suffix_cons _ _).trans (List.suffix_append _ _)
    · rw [PixelSize.written, if_neg h]
      refine ⟨(text.rdropWhile isDigit).dropLast.rdropWhile isDigit, ?_⟩
      rw [← List.append_assoc, hfront, List.append_cons, hrest, htext]
  · rw [PixelSize.written, if_pos rfl, List.append_nil]
    exact ⟨⟨h, hdigits text, by simp⟩, List.suffix_refl _, List.rtakeWhile_suffix isDigit text⟩

/-- The size at the end of a text that ends with a digit is the longest one. -/
theorem longest_sizeAtEnd (h : text.rtakeWhile isDigit ≠ []) : Longest text (sizeAtEnd text) := by
  obtain ⟨hnumeral, hlast, hsuffix⟩ := sizeAtEnd_ends h
  refine ⟨hnumeral, hsuffix, ?_⟩
  intro other hother hends
  by_cases hfraction : other.fraction = []
  · exact (suffix_last hother hfraction hends).trans hlast
  · obtain ⟨front, hsize⟩ := sizeAtEnd_of_fraction hother hfraction hends
    rw [hsize]
    exact ⟨front, by simp [PixelSize.written]⟩

/-- There is no other way to write a size. -/
theorem written_inj (h : size.IsNumeral) (h' : other.IsNumeral)
    (heq : size.written = other.written) : size = other := by
  have hsize := sizeAtFront?_eq_some_iff.2 ⟨h, List.prefix_refl _⟩
  have hother := sizeAtFront?_eq_some_iff.2 ⟨h', List.prefix_refl _⟩
  rw [heq, hother] at hsize
  exact (Option.some.inj hsize).symm

/-- Only one size is the longest. -/
theorem Longest.unique (h : Longest text size) (h' : Longest text other) : size = other := by
  have hsuffix := h.longest other h'.numeral h'.suffix
  have hsuffix' := h'.longest size h.numeral h.suffix
  exact written_inj h.numeral h'.numeral (hsuffix'.eq_of_length_le hsuffix.length_le)

/-- One more code point in front makes no difference unless a size is all of the
text then. -/
theorem Longest.cons {c : CodePoint} (h : Longest text size)
    (hnone : ∀ other : PixelSize, other.IsNumeral → other.written ≠ c :: text) :
    Longest (c :: text) size := by
  refine ⟨h.numeral, h.suffix.trans (List.suffix_cons c text), ?_⟩
  intro other hother hsuffix
  rcases List.suffix_cons_iff.1 hsuffix with heq | hsuffix
  · exact absurd heq (hnone other hother)
  · exact h.longest other hother hsuffix

/-! ### The first size -/

/-- If a size ends somewhere, the first size is the longest one that ends first. -/
theorem firstSize?_of_endsFirst (h : EndsFirst font i) :
    ∃ size, firstSize? font = some size ∧ Longest (font.take (i + 1)) size := by
  induction font generalizing i with
  | nil =>
    obtain ⟨c, hc, _⟩ := h.ends.1
    simp at hc
  | cons c font ih =>
    rw [firstSize?]
    cases hfront : sizeAtFront? (c :: font) with
    | some size =>
      obtain ⟨hnumeral, hwritten⟩ := sizeAtFront?_eq_some_iff.1 hfront
      -- A size at the front ends where the first size does.
      obtain rfl := h.unique (endsFirst_written hnumeral hwritten)
      have hpos : 0 < size.written.length := List.length_pos_iff.2 (PixelSize.written_ne hnumeral)
      have hend : (c :: font).take (size.written.length - 1 + 1) = size.written := by
        rw [Nat.sub_add_cancel hpos]
        exact (List.prefix_iff_eq_take.1 ((List.prefix_append _ _).trans hwritten)).symm
      rw [hend]
      exact ⟨size, rfl, hnumeral, List.suffix_refl _, fun other _ hsuffix => hsuffix⟩
    | none =>
      have hunfound {other : PixelSize} (hother : other.IsNumeral) :
          ¬other.written ++ ofString "px" <+: c :: font := by
        intro hwritten
        rw [sizeAtFront?_eq_some_iff.2 ⟨hother, hwritten⟩] at hfront
        cases hfront
      have hunit := startsWithUnit_iff.1 h.ends.2
      cases i with
      | zero =>
        -- The digit alone would have been a size.
        obtain ⟨d, hd, hdigit⟩ := h.ends.1
        obtain rfl : c = d := by simpa using hd
        have hone : PixelSize.IsNumeral ⟨[c], []⟩ := ⟨by simp, by simpa using hdigit, by simp⟩
        refine absurd ?_ (hunfound hone)
        simpa [PixelSize.written] using hunit
      | succ j =>
        have hj : EndsFirst font j := by
          refine ⟨endsSize_succ.1 h.ends, ?_⟩
          intro k hk hends
          exact h.first (k + 1) (Nat.succ_lt_succ hk) (endsSize_succ.2 hends)
        obtain ⟨size, hsize, hlongest⟩ := ih hj
        refine ⟨size, hsize, ?_⟩
        rw [List.take_succ_cons]
        refine hlongest.cons ?_
        intro other hother heq
        -- A size as long as that would have been found at the front.
        refine hunfound hother ?_
        have hall := (List.prefix_append_right_inj ((c :: font).take (j + 1 + 1))).2 hunit
        rw [List.take_append_drop, List.take_succ_cons, ← heq] at hall
        exact hall

/-- Where no size ends, none is found. -/
theorem firstSize?_eq_none (h : ∀ i, ¬EndsSize font i) : firstSize? font = none := by
  induction font with
  | nil => rfl
  | cons c font ih =>
    rw [firstSize?]
    cases hfront : sizeAtFront? (c :: font) with
    | some size =>
      obtain ⟨hnumeral, hwritten⟩ := sizeAtFront?_eq_some_iff.1 hfront
      exact absurd (endsFirst_written hnumeral hwritten).ends (h _)
    | none => exact ih fun i hi => h (i + 1) (endsSize_succ.2 hi)

/-- Where a size ends, one ends first. -/
theorem exists_endsFirst (h : ∃ i, EndsSize font i) : ∃ i, EndsFirst font i := by
  classical
  exact ⟨Nat.find h, Nat.find_spec h, fun j hj => Nat.find_min h hj⟩

/-- The digit at the end of a size is among the last digits up to there. -/
theorem EndsSize.last_ne (h : EndsSize font i) : (font.take (i + 1)).rtakeWhile isDigit ≠ [] := by
  obtain ⟨c, hc, hdigit⟩ := h.1
  rw [List.take_add_one, hc, Option.toList_some, List.rtakeWhile_concat_pos _ _ _ hdigit]
  simp

/-! ### The number of a size -/

/-- Digits behind others move these to the front. -/
theorem digitsValue_append (front back : Text) :
    digitsValue (front ++ back) = digitsValue front * 10 ^ back.length + digitsValue back := by
  induction back using List.reverseRecOn with
  | nil => simp [digitsValue]
  | append_singleton back c ih =>
    simp only [digitsValue, List.foldl_append, List.foldl_cons, List.foldl_nil] at ih ⊢
    rw [ih, List.length_append, List.length_singleton, pow_succ]
    ring

/-- A size is the double nearest to the number that its digits stand for: the
whole number in front of the point, and the fraction as a quotient. -/
theorem PixelSize.toDouble_eq (size : PixelSize) :
    size.toDouble =
      Number.nearest false
        (digitsValue size.whole * 10 ^ size.fraction.length + digitsValue size.fraction)
        (10 ^ size.fraction.length) := by
  rw [toDouble, Number.nearestDecimal_eq, digitsValue_append, neg_neg, Int.toNat_natCast,
    Int.toNat_neg_natCast, show Number.tenPow 0 = 1 from rfl, mul_one]
  rfl

/-- Twelve and a half is a double, and a tenth is rounded to one. -/
example : (⟨"12", "5"⟩ : PixelSize).toDouble = 12.5 ∧ (⟨"0", "10"⟩ : PixelSize).toDouble = 0.1 := by
  decide +kernel

/-- Twelve is a double. -/
theorem twelve_eq : Number.nearestDecimal false 12 0 = 12.0 := by
  decide +kernel

/-- The size of a font that is a text is computed from the text. -/
theorem fontSizeOf_string (font : Text) : fontSizeOf (.string font) = .ok (fontSize font) := by
  cases font <;> rfl

/-- A font in which there is no digit in front of the unit has the default size,
which is twelve. Any other one has the longest size that ends at the first such
digit: the digits up to there, with a point and the digits in front of that if
both are there. -/
theorem fontSize_first (font : Text) :
    fontSizeOf (.string font) = .ok (fontSize font) ∧
      ((∀ i, ¬EndsSize font i) ∧ firstSize? font = none ∧ fontSize font = 12.0 ∨
        ∃ i, EndsFirst font i ∧ Longest (font.take (i + 1)) (sizeAtEnd (font.take (i + 1))) ∧
          firstSize? font = some (sizeAtEnd (font.take (i + 1))) ∧
          fontSize font = (sizeAtEnd (font.take (i + 1))).toDouble) := by
  refine ⟨fontSizeOf_string font, ?_⟩
  by_cases hends : ∃ i, EndsSize font i
  · right
    obtain ⟨i, hfirst⟩ := exists_endsFirst hends
    obtain ⟨size, hsize, hlongest⟩ := firstSize?_of_endsFirst hfirst
    have hend := longest_sizeAtEnd hfirst.ends.last_ne
    -- What is found is the longest size that ends there, and so is what is read off from the end.
    obtain rfl := hlongest.unique hend
    refine ⟨i, hfirst, hend, hsize, ?_⟩
    rw [fontSize, hsize]
    rfl
  · left
    have hnot := not_exists.1 hends
    have hnone := firstSize?_eq_none hnot
    refine ⟨hnot, hnone, ?_⟩
    rw [fontSize, hnone, Option.map_none, Option.getD_none, twelve_eq]

/-- Of several points the last one counts, and of several sizes the first one. -/
example : firstSize? "bold 1.5.2px/30px" = some ⟨"5", "2"⟩ := by
  decide

end Flowchart.Metrics
