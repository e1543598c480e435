import Mathlib.Data.Nat.Find
import Mathlib.Order.Bounds.Basic
import Flowchart.Proofs.Text.Spelling
import Flowchart.Source

/-!
# `Flowchart.Proofs.Text.Cuts`: what a node covers of its source

A node covers bytes of a source, and its ends may lie inside code points. What
is read then is the code points that lie between the ends as a whole, with what
is left of others in front of them and behind them. In front stand bytes that
follow a first byte that was cut off, and each is shown on its own. Behind them
stands the beginning of a spelling, which is shown once. Where both ends lie in
one code point there is no beginning either, and all bytes are shown one by
one.

So the text of a node is found from two boundaries: the first one that is not
in front of its start, and the last one that is not behind its end.

* `offset`, `boundaries`: where the code points of a text start in its bytes;
* `unled_cut`, `readLenient_rear`: what is left of code points in front and
  behind;
* `readLenient_between`, `readLenient_inside`: cuts with a boundary between
  their ends, and without;
* `textOf_cut`: the text of a node.
-/

set_option autoImplicit false

namespace Flowchart.Text

open Encoded Utf8

/-! ### Boundaries -/

/-- How many bytes are in front of a code point, by how many code points are. -/
def offset (text : Text) (count : Nat) : Nat :=
  ((text.take count).flatMap bytesOf).length

/-- The offsets at which code points start, and the one behind the last. -/
def boundaries (text : Text) : List Nat :=
  (List.range (text.length + 1)).map text.offset

variable {text : Text} {start stop i j k l : Nat}

/-- The boundaries of a text are the offsets of its characters, and its end. -/
theorem mem_boundaries {n : Nat} : n ∈ text.boundaries ↔ ∃ k ≤ text.length, text.offset k = n := by
  simp only [boundaries, List.mem_map, List.mem_range, Nat.lt_succ_iff]

/-- A text starts at offset zero. -/
theorem offset_zero (text : Text) : text.offset 0 = 0 := by
  simp [offset]

/-- A text ends at the number of its bytes. -/
theorem offset_length (text : Text) : text.offset text.length = (text.flatMap bytesOf).length := by
  rw [offset, List.take_length]

/-- A character has a byte at least. -/
theorem length_bytesOf_pos (c : CodePoint) : 0 < (bytesOf c).length := by
  simp only [bytesOf]
  repeat' split
  all_goals exact Nat.succ_pos _

/-- The bytes of one character more come behind those in front of it. -/
theorem take_succ_flatMap (h : k < text.length) :
    (text.take (k + 1)).flatMap bytesOf = (text.take k).flatMap bytesOf ++ bytesOf text[k] := by
  rw [List.take_add_one, List.getElem?_eq_getElem h, Option.toList_some, List.flatMap_append,
    List.flatMap_singleton]

/-- The bytes from a character on are its own and those behind it. -/
theorem drop_flatMap (h : k < text.length) :
    (text.drop k).flatMap bytesOf = bytesOf text[k] ++ (text.drop (k + 1)).flatMap bytesOf := by
  rw [List.drop_eq_getElem_cons h, List.flatMap_cons]

/-- The next character starts behind the bytes of this one. -/
theorem offset_succ (h : k < text.length) :
    text.offset (k + 1) = text.offset k + (bytesOf text[k]).length := by
  rw [offset, take_succ_flatMap h, List.length_append, offset]

/-- A later character does not start earlier. -/
theorem offset_le (h : k ≤ l) : text.offset k ≤ text.offset l := by
  obtain ⟨more, rfl⟩ := Nat.exists_eq_add_of_le h
  rw [offset, offset, List.take_add, List.flatMap_append, List.length_append]
  exact Nat.le_add_right _ _

/-- A later character starts later. -/
theorem offset_lt (h : k < l) (hl : l ≤ text.length) : text.offset k < text.offset l := by
  have hk : k < text.length := lt_of_lt_of_le h hl
  have hstep := offset_succ hk
  have hpos := length_bytesOf_pos text[k]
  have hle : text.offset (k + 1) ≤ text.offset l := offset_le h
  omega

/-- The first boundary that is not in front of an offset. -/
def IsFirstFrom (text : Text) (start i : Nat) : Prop :=
  IsLeast {k | k ≤ text.length ∧ start ≤ text.offset k} i

/-- The last boundary that is not behind an offset. -/
def IsLastUpTo (text : Text) (stop j : Nat) : Prop :=
  IsGreatest {k | k ≤ text.length ∧ text.offset k ≤ stop} j

/-- Up to the end of a text, there is a first character at or behind an offset.
-/
theorem exists_isFirstFrom (h : start ≤ text.offset text.length) : ∃ i, text.IsFirstFrom start i :=
  have hsome : ∃ k, k ≤ text.length ∧ start ≤ text.offset k := ⟨text.length, Nat.le_refl _, h⟩
  ⟨Nat.find hsome, Nat.find_spec hsome, fun _ hk => Nat.find_min' hsome hk⟩

/-- There is a last character that ends at or in front of an offset. -/
theorem exists_isLastUpTo (text : Text) (stop : Nat) : ∃ j, text.IsLastUpTo stop j := by
  have hzero : text.offset 0 ≤ stop := by
    rw [offset_zero]
    exact Nat.zero_le stop
  refine ⟨Nat.findGreatest (fun k => text.offset k ≤ stop) text.length, ⟨?_, ?_⟩, ?_⟩
  · exact Nat.findGreatest_le text.length
  · exact Nat.findGreatest_spec (P := fun k => text.offset k ≤ stop) (Nat.zero_le _) hzero
  · intro k hk
    exact Nat.le_findGreatest hk.1 hk.2

/-- An offset that is a boundary is the first one from there. -/
theorem isFirstFrom_offset (h : k ≤ text.length) : text.IsFirstFrom (text.offset k) k := by
  refine ⟨⟨h, Nat.le_refl _⟩, ?_⟩
  rintro l ⟨_, hle⟩
  by_contra hlt
  exact absurd (offset_lt (Nat.not_le.1 hlt) h) (Nat.not_lt.2 hle)

/-- An offset that is a boundary is the last one up to there. -/
theorem isLastUpTo_offset (h : k ≤ text.length) : text.IsLastUpTo (text.offset k) k := by
  refine ⟨⟨h, Nat.le_refl _⟩, ?_⟩
  rintro l ⟨hl, hle⟩
  by_contra hlt
  exact absurd (offset_lt (Nat.not_le.1 hlt) hl) (Nat.not_lt.2 hle)

/-- The last boundary up to an offset is at the offset if there is one. -/
theorem IsLastUpTo.mem_boundaries_iff (h : text.IsLastUpTo stop j) :
    stop ∈ text.boundaries ↔ text.offset j = stop := by
  rw [mem_boundaries]
  constructor
  · rintro ⟨k, hk, rfl⟩
    rw [IsGreatest.unique h (isLastUpTo_offset hk)]
  · intro heq
    exact ⟨j, h.1.1, heq⟩

/-! ### What is left of code points -/

section

variable (htext : ∀ c ∈ text, c.isSurrogate = false)

include htext

/-- Behind the first byte of a code point nothing starts. -/
theorem unled_drop (hk : k < text.length) {count : Nat} (hpos : 0 < count) :
    ∀ b ∈ (bytesOf text[k]).drop count, lead b = none := by
  intro b hb
  have hmem : b ∈ ((bytesOf text[k]).drop 1).drop (count - 1) := by
    rw [List.drop_drop, Nat.add_sub_cancel' hpos]
    exact hb
  rw [List.drop_one] at hmem
  exact lead_of_mem_tail (htext _ (List.getElem_mem hk)) b (List.mem_of_mem_drop hmem)

/-- In front of the first boundary from an offset, nothing starts. -/
theorem unled_cut (hi : text.IsFirstFrom start i) :
    ∀ b ∈ ((text.take i).flatMap bytesOf).drop start, lead b = none := by
  cases i with
  | zero => simp
  | succ k =>
    have hk : k < text.length := hi.1.1
    -- The boundary before that is in front of the offset.
    have hlt : text.offset k < start := by
      by_contra hle
      exact absurd (hi.2 ⟨hk.le, Nat.not_lt.1 hle⟩) (Nat.not_succ_le_self k)
    have hfront : ((text.take k).flatMap bytesOf).drop start = [] :=
      List.drop_eq_nil_of_le hlt.le
    rw [take_succ_flatMap hk, List.drop_append, hfront, List.nil_append]
    exact unled_drop htext hk (Nat.sub_pos_of_lt hlt)

/-- Behind the last boundary up to an offset there is nothing up to it, or a
spelling that breaks off. -/
theorem readLenient_rear (hstop : stop ≤ text.offset text.length)
    (hj : text.IsLastUpTo stop j) :
    readLenient (((text.drop j).flatMap bytesOf).take (stop - text.offset j)) =
      if stop ∈ text.boundaries then [] else [CodePoint.replacement] := by
  simp only [hj.mem_boundaries_iff]
  split
  · rename_i heq
    rw [heq, Nat.sub_self, List.take_zero]
    simp [readLenient, pieces]
  · rename_i hne
    have hle : text.offset j ≤ stop := hj.1.2
    have hjlt : j < text.length := by
      refine lt_of_le_of_ne hj.1.1 ?_
      rintro rfl
      omega
    -- The code point there ends behind the offset.
    have hbehind : stop < text.offset (j + 1) := by
      by_contra hnot
      exact absurd (hj.2 ⟨hjlt, Nat.not_lt.1 hnot⟩) (Nat.not_succ_le_self j)
    rw [offset_succ hjlt] at hbehind
    have hshort : stop - text.offset j < (bytesOf text[j]).length := by omega
    rw [drop_flatMap hjlt, List.take_append_of_le_length hshort.le]
    exact readLenient_take (htext _ (List.getElem_mem hjlt)) (by omega) hshort

/-! ### Cuts -/

/-- A cut with a boundary between its ends shows what is left in front, the code
points between the boundaries, and what is left behind. -/
theorem readLenient_between (hstop : stop ≤ text.offset text.length)
    (hi : text.IsFirstFrom start i) (hj : text.IsLastUpTo stop j) (hij : i ≤ j) :
    readLenient (((text.flatMap bytesOf).take stop).drop start) =
      List.replicate (text.offset i - start) CodePoint.replacement ++ (text.take j).drop i ++
        if stop ∈ text.boundaries then [] else [CodePoint.replacement] := by
  have hfront : start ≤ ((text.take i).flatMap bytesOf).length := hi.1.2
  have hsplit : (text.take j).flatMap bytesOf =
      (text.take i).flatMap bytesOf ++ ((text.take j).drop i).flatMap bytesOf := by
    conv_lhs => rw [← List.take_append_drop i (text.take j)]
    rw [List.flatMap_append, List.take_take, Nat.min_eq_left hij]
  have hrear : (text.flatMap bytesOf).take stop = (text.take j).flatMap bytesOf ++
      ((text.drop j).flatMap bytesOf).take (stop - text.offset j) := by
    conv_lhs => rw [← List.take_append_drop j text]
    rw [List.flatMap_append, List.take_append, List.take_of_length_le hj.1.2]
    rfl
  have hbetween : ∀ c ∈ (text.take j).drop i, c.isSurrogate = false :=
    fun c hc => htext c (List.mem_of_mem_take (List.mem_of_mem_drop hc))
  have hleft : (((text.take i).flatMap bytesOf).drop start).length = text.offset i - start := by
    rw [List.length_drop]
    rfl
  -- Each of the three stretches is read as if it stood alone.
  rw [hrear, hsplit, List.append_assoc, List.drop_append_of_le_length hfront,
    readLenient_unled (unled_cut htext hi), readLenient_flatMap hbetween,
    readLenient_rear htext hstop hj, hleft, List.append_assoc]

/-- A cut inside a code point shows each of its bytes. -/
theorem readLenient_inside (hle : start ≤ stop) (hi : text.IsFirstFrom start i)
    (hj : text.IsLastUpTo stop j) (hji : j < i) :
    readLenient (((text.flatMap bytesOf).take stop).drop start) =
      List.replicate (stop - start) CodePoint.replacement := by
  have hjlt : j < text.length := lt_of_lt_of_le hji hi.1.1
  have hfront : text.offset j < start := by
    by_contra hnot
    exact absurd (hi.2 ⟨hjlt.le, Nat.not_lt.1 hnot⟩) (Nat.not_le.2 hji)
  have hbehind : stop < text.offset (j + 1) := by
    by_contra hnot
    exact absurd (hj.2 ⟨hjlt, Nat.not_lt.1 hnot⟩) (Nat.not_succ_le_self j)
  rw [offset_succ hjlt] at hbehind
  have hlength : ((bytesOf text[j]).drop (start - text.offset j)).length =
      text.offset j + (bytesOf text[j]).length - start := by
    rw [List.length_drop]
    omega
  -- Of the code point, the bytes from the start up to the end.
  have hcut : ((text.flatMap bytesOf).take stop).drop start =
      ((bytesOf text[j]).drop (start - text.offset j)).take (stop - start) := by
    have hbefore : ((text.take j).flatMap bytesOf).drop start = [] :=
      List.drop_eq_nil_of_le hfront.le
    conv_lhs => rw [← List.take_append_drop j text]
    rw [List.drop_take, List.flatMap_append, List.drop_append, hbefore, List.nil_append,
      drop_flatMap hjlt]
    show ((bytesOf text[j] ++ _).drop (start - text.offset j)).take (stop - start) = _
    rw [List.drop_append_of_le_length (by omega), List.take_append_of_le_length (by omega)]
  have hunled : ∀ b ∈ ((bytesOf text[j]).drop (start - text.offset j)).take (stop - start),
      lead b = none := by
    intro b hb
    exact unled_drop htext hjlt (Nat.sub_pos_of_lt hfront) b (List.mem_of_mem_take hb)
  have hshown := readLenient_unled hunled []
  rw [List.append_nil, List.length_take, Nat.min_eq_left (by omega)] at hshown
  rw [hcut, hshown]
  simp [readLenient, pieces]

end

/-! ### Nodes -/

/-- A bound inside a text is where it says. -/
theorem place_natCast {size bound : Nat} (h : bound ≤ size) : place size bound = bound := by
  rw [place, if_neg (Int.not_lt.2 (Int.natCast_nonneg bound)), Int.toNat_natCast, Nat.min_eq_left h]

/-- Between two offsets inside a source there are the bytes up to the second one
without those up to the first. -/
theorem bytesBetween_natCast {bytes : List UInt8} (hle : start ≤ stop)
    (hstop : stop ≤ bytes.length) :
    Source.bytesBetween ⟨⟨bytes.toArray⟩⟩ start stop = (bytes.take stop).drop start := by
  show (ByteArray.extract ⟨bytes.toArray⟩ (place bytes.length start)
    (place bytes.length stop)).data.toList = _
  rw [place_natCast hstop, place_natCast (hle.trans hstop), ByteArray.data_extract,
    Array.toList_extract, List.extract_eq_take_drop, List.drop_take]

/-- What a node between two offsets shows of a text. -/
theorem textOf_ofText {node : NodeInfo} (hstart : node.start = start) (hnode : node.stop = stop)
    (hle : start ≤ stop) (hstop : stop ≤ (text.flatMap bytesOf).length) :
    Source.textOf ⟨⟨(text.flatMap bytesOf).toArray⟩⟩ node =
      readLenient (((text.flatMap bytesOf).take stop).drop start) := by
  rw [Source.textOf, hstart, hnode, bytesBetween_natCast hle hstop]

/-- The text of a node is what the source says between its ends, as far as they
lie between code points. For every text without halves of surrogate pairs there
is a source. Of a node in it, let `i` be the first boundary from the start on
and `j` the last one up to the end. If `i` is not behind `j`, the node shows a
replacement for each byte in front of `i`, the code points from `i` to `j`, and
one replacement if its end is no boundary. If it is, the node shows a
replacement for each of its bytes. So a node whose ends are boundaries shows
the code points between them. -/
theorem textOf_cut (text : Text) (htext : ∀ c ∈ text, c.isSurrogate = false) (node : NodeInfo)
    (start stop : Nat) (hstart : node.start = start) (hnode : node.stop = stop)
    (hle : start ≤ stop) (hstop : stop ≤ (text.flatMap bytesOf).length) :
    ∃ source i j, Source.ofText text = .ok source ∧
      text.IsFirstFrom start i ∧ text.IsLastUpTo stop j ∧
      source.textOf node =
        (if i ≤ j then
          List.replicate (text.offset i - start) CodePoint.replacement ++ (text.take j).drop i ++
            if stop ∈ text.boundaries then [] else [CodePoint.replacement]
        else List.replicate (stop - start) CodePoint.replacement) ∧
      ∀ k l, k ≤ l → l ≤ text.length → start = text.offset k → stop = text.offset l →
        source.textOf node = (text.take l).drop k := by
  have hsource : Source.ofText text = .ok ⟨⟨(text.flatMap bytesOf).toArray⟩⟩ := by
    rw [Source.ofText, encode_eq_ok htext]
    rfl
  have hshown := textOf_ofText hstart hnode hle hstop
  have hwidth : stop ≤ text.offset text.length := by
    rw [offset_length]
    exact hstop
  obtain ⟨i, hi⟩ := exists_isFirstFrom (hle.trans hwidth)
  obtain ⟨j, hj⟩ := exists_isLastUpTo text stop
  refine ⟨_, i, j, hsource, hi, hj, ?_, ?_⟩
  · rw [hshown]
    by_cases hij : i ≤ j
    · rw [if_pos hij, readLenient_between htext hwidth hi hj hij]
    · rw [if_neg hij, readLenient_inside htext hle hi hj (Nat.not_le.1 hij)]
  · rintro k l hkl hl rfl rfl
    -- The ends are the boundaries themselves, and nothing is left of others.
    have hmem : text.offset l ∈ text.boundaries := mem_boundaries.2 ⟨l, hl, rfl⟩
    rw [hshown, readLenient_between htext hwidth (isFirstFrom_offset (hkl.trans hl))
      (isLastUpTo_offset hl) hkl, if_pos hmem, Nat.sub_self, List.replicate_zero, List.nil_append,
      List.append_nil]

namespace Sample

/-- An accented letter, a plain one and a picture: two bytes, one and four. -/
def mixed : Text :=
  [0xE9, 0x61, 0x1F600]

/-- A node from the second byte of the first letter to the second one of the
picture. -/
def across : NodeInfo :=
  ⟨.string [], 1, 5, ⟨0, 1⟩, ⟨0, 5⟩, true⟩

end Sample

/-- The plain letter is shown between what is left of its neighbours. -/
theorem textOf_cut_across :
    ∃ source, Source.ofText Sample.mixed = .ok source ∧
      source.textOf Sample.across = [CodePoint.replacement, 0x61, CodePoint.replacement] := by
  have htext : ∀ c ∈ Sample.mixed, c.isSurrogate = false := by
    intro c hc
    simp only [Sample.mixed, List.mem_cons, List.not_mem_nil, or_false] at hc
    rcases hc with rfl | rfl | rfl <;> rfl
  -- The boundaries are 0, 2, 3 and 7, and those inside the cut are the ends of the plain letter.
  have hfirst : Sample.mixed.IsFirstFrom 1 1 := by
    refine ⟨⟨by decide, by decide⟩, ?_⟩
    rintro k ⟨_, hle⟩
    by_contra hlt
    obtain rfl : k = 0 := by omega
    exact absurd hle (by decide)
  have hlast : Sample.mixed.IsLastUpTo 5 2 := by
    refine ⟨⟨by decide, by decide⟩, ?_⟩
    rintro k ⟨hk, hle⟩
    by_contra hlt
    obtain rfl : k = 3 := Nat.le_antisymm hk (by omega)
    exact absurd hle (by decide)
  have hstop : 5 ≤ (Sample.mixed.flatMap bytesOf).length := by decide
  obtain ⟨source, i, j, hsource, hi, hj, hshown, _⟩ :=
    textOf_cut Sample.mixed htext Sample.across 1 5 rfl rfl (by decide) hstop
  rw [IsLeast.unique hi hfirst, IsGreatest.unique hj hlast] at hshown
  exact ⟨source, hsource, hshown⟩

end Flowchart.Text
