import Flowchart.Text.Encoded
import Flowchart.Text.Utf8

/-!
# `Flowchart.Proofs.Text.Spelling`: reading what was written

A code point is spelled with one to four bytes. The first one says how many
follow and narrows down the second, and each byte that follows carries six bits
and starts nothing itself. Everything that a lenient reading does with a
spelling is read off these facts:

* a whole spelling is the code point, whatever stands behind it;
* bytes that follow, with nothing in front of them, are shown one by one;
* a spelling that breaks off is shown once, however much of it is there.

The last two are told apart by the first byte alone.

* `Spelling`, `exists_spelling`: how a code point is spelled;
* `readLenient_bytesOf`, `readLenient_flatMap`: whole spellings;
* `readLenient_unled`: bytes that start nothing;
* `readLenient_take`: a spelling that breaks off.
-/

set_option autoImplicit false

namespace Flowchart.Text.Utf8

open Encoded

/-! ### Bytes that follow -/

/-- The byte that follows with six bits. -/
def follow (bits : Nat) : UInt8 :=
  UInt8.ofNat (0x80 + bits)

/-- A byte that follows carries six bits. -/
theorem toNat_follow {bits : Nat} (h : bits < 64) : (follow bits).toNat = 0x80 + bits := by
  show (0x80 + bits) % 256 = 0x80 + bits
  omega

/-- A byte that follows does not lead. -/
theorem lead_follow : ∀ bits < 64, lead (follow bits) = none := by
  decide

/-- Any byte that follows is admitted where the first byte does not narrow it
down. -/
theorem admits_follow {bits : Nat} (h : bits < 64) : 0x80 ≤ follow bits ∧ follow bits ≤ 0xBF := by
  simp only [UInt8.le_iff_toNat_le, toNat_follow h]
  constructor
  · exact Nat.le_add_right 0x80 bits
  · show 0x80 + bits ≤ 0xBF
    omega

/-- A byte that follows and is admitted is taken. -/
theorem continuation_follow (first : UInt8) (value taken count : Nat) {low high : UInt8}
    {bits : Nat} (hbits : bits < 64) (h : low ≤ follow bits ∧ follow bits ≤ high)
    (rest : List UInt8) :
    continuation first value taken (count + 1) low high (follow bits :: rest) =
      continuation first (value * 64 + bits) (taken + 1) count 0x80 0xBF rest := by
  have hpayload : (follow bits).toNat - 0x80 = bits := by
    rw [toNat_follow hbits]
    omega
  simp [continuation, h, hpayload]

/-- The number that some bits spell behind a value. -/
def spelled (value : Nat) (payload : List Nat) : Nat :=
  payload.foldl (fun value bits => value * 64 + bits) value

/-- As many bytes as were announced finish a code point. -/
theorem continuation_eq_char (first : UInt8) (value taken : Nat) {low high : UInt8}
    {payload : List Nat} (hbits : ∀ bits ∈ payload, bits < 64)
    (h : ∀ bits ∈ payload.head?, low ≤ follow bits ∧ follow bits ≤ high) (rest : List UInt8) :
    continuation first value taken payload.length low high (payload.map follow ++ rest) =
      .char (CodePoint.ofNat (spelled value payload)) (taken + payload.length) := by
  induction payload generalizing value taken low high with
  | nil => rfl
  | cons bits payload ih =>
    obtain ⟨hfirst, hrest⟩ := List.forall_mem_cons.1 hbits
    -- Behind the first of them nothing is narrowed down any more.
    have hadmits : ∀ bits ∈ payload.head?, 0x80 ≤ follow bits ∧ follow bits ≤ 0xBF := by
      intro bits hmem
      exact admits_follow (hrest bits (List.mem_of_mem_head? hmem))
    rw [List.length_cons, List.map_cons, List.cons_append,
      continuation_follow first value taken _ hfirst (h bits rfl), ih _ _ hrest hadmits]
    simp only [spelled, List.foldl_cons]
    congr 1
    omega

/-- Fewer bytes than were announced, and none behind them, leave it unfinished. -/
theorem continuation_eq_flawed (first : UInt8) (value taken : Nat) {count : Nat}
    {low high : UInt8} {payload : List Nat} (hbits : ∀ bits ∈ payload, bits < 64)
    (h : ∀ bits ∈ payload.head?, low ≤ follow bits ∧ follow bits ≤ high)
    (hshort : payload.length < count) :
    continuation first value taken count low high (payload.map follow) =
      .flawed .unexpectedEnd first (taken + payload.length) := by
  -- By induction on the bytes that are there; the first one alone has bounds of its own.
  induction payload generalizing value taken count low high with
  | nil =>
    cases count with
    | zero => exact absurd hshort (Nat.lt_irrefl 0)
    | succ count => rfl
  | cons bits payload ih =>
    obtain ⟨hfirst, hrest⟩ := List.forall_mem_cons.1 hbits
    have hadmits : ∀ bits ∈ payload.head?, 0x80 ≤ follow bits ∧ follow bits ≤ 0xBF := by
      intro bits hmem
      exact admits_follow (hrest bits (List.mem_of_mem_head? hmem))
    cases count with
    | zero => exact absurd hshort (Nat.not_lt_zero _)
    | succ count =>
      rw [List.map_cons, continuation_follow first value taken count hfirst (h bits rfl),
        ih _ _ hrest hadmits (Nat.lt_of_succ_lt_succ hshort), List.length_cons]
      congr 1
      omega

/-! ### First bytes -/

/-- A byte below 0x80 stands for itself. -/
theorem lead_one : ∀ n < 0x80, lead (UInt8.ofNat n) = some (n, 0, 0x80, 0xBF) := by
  decide

/-- Of two bytes, the first is none that would be overlong. -/
theorem lead_two : ∀ n < 30, lead (UInt8.ofNat (0xC2 + n)) = some (n + 2, 1, 0x80, 0xBF) := by
  decide

/-- Of three bytes, the first shuts out overlong forms and surrogates. -/
theorem lead_three : ∀ n < 16, lead (UInt8.ofNat (0xE0 + n)) =
    some (n, 2, if n = 0 then 0xA0 else 0x80, if n = 13 then 0x9F else 0xBF) := by
  decide

/-- Of four bytes, the first shuts out overlong forms and what is too large. -/
theorem lead_four : ∀ n < 5, lead (UInt8.ofNat (0xF0 + n)) =
    some (n, 3, if n = 0 then 0x90 else 0x80, if n = 4 then 0x8F else 0xBF) := by
  decide

/-! ### Spellings -/

/-- How a code point is spelled. -/
structure Spelling (c : CodePoint) where
  first : UInt8
  /-- The bits of the first byte. -/
  value : Nat
  low : UInt8
  high : UInt8
  /-- The bits of the bytes that follow. -/
  payload : List Nat
  bytes : bytesOf c = first :: payload.map follow
  lead_first : lead first = some (value, payload.length, low, high)
  six : ∀ bits ∈ payload, bits < 64
  admitted : ∀ bits ∈ payload.head?, low ≤ follow bits ∧ follow bits ≤ high
  spelled_eq : spelled value payload = c.val

namespace Spelling

variable {c : CodePoint}

/-- A rest of sixty-four fits into six bits. -/
theorem bits_lt (n : Nat) : n % 64 < 64 :=
  Nat.mod_lt n (by decide)

/-- The spelling of a code point below 128. -/
def oneByte (h : c.val < 0x80) : Spelling c where
  first := UInt8.ofNat c.val
  value := c.val
  low := 0x80
  high := 0xBF
  payload := []
  bytes := by simp [bytesOf, h]
  lead_first := lead_one c.val h
  six := nofun
  admitted := nofun
  spelled_eq := rfl

/-- Code points of at most eleven bits are spelled in two bytes. -/
def twoBytes (hlow : 0x80 ≤ c.val) (hhigh : c.val < 0x800) : Spelling c where
  first := UInt8.ofNat (0xC0 + c.val / 64)
  value := c.val / 64
  low := 0x80
  high := 0xBF
  payload := [c.val % 64]
  bytes := by simp [bytesOf, Nat.not_lt.2 hlow, hhigh, follow]
  -- First bytes of two start at 0xC2, since 0xC0 and 0xC1 would be overlong.
  lead_first := by
    have hlead := lead_two (c.val / 64 - 2) (by omega)
    have hfirst : 0xC2 + (c.val / 64 - 2) = 0xC0 + c.val / 64 := by omega
    have hvalue : c.val / 64 - 2 + 2 = c.val / 64 := by omega
    rwa [hfirst, hvalue] at hlead
  six := by simpa using bits_lt c.val
  admitted := by simpa using admits_follow (bits_lt c.val)
  spelled_eq := by
    show c.val / 64 * 64 + c.val % 64 = c.val
    omega

/-- The spelling with three bytes. Where the first byte leaves room for overlong
forms, the number is too large to be one, and where it leaves room for
surrogates, the number is none. -/
def threeBytes (hlow : 0x800 ≤ c.val) (hhigh : c.val < 0x10000)
    (hsurrogate : ¬(0xD800 ≤ c.val ∧ c.val < 0xE000)) : Spelling c where
  first := UInt8.ofNat (0xE0 + c.val / 4096)
  value := c.val / 4096
  low := if c.val / 4096 = 0 then 0xA0 else 0x80
  high := if c.val / 4096 = 13 then 0x9F else 0xBF
  payload := [c.val / 64 % 64, c.val % 64]
  bytes := by
    have htwo : ¬c.val < 0x80 := by omega
    simp [bytesOf, htwo, Nat.not_lt.2 hlow, hhigh, follow]
  lead_first := lead_three (c.val / 4096) (by omega)
  six := by simpa using And.intro (bits_lt (c.val / 64)) (bits_lt c.val)
  -- The bounds of the first byte that follows depend on the leading bits.
  admitted := by
    intro bits hmem
    obtain rfl : c.val / 64 % 64 = bits := by simpa using hmem
    simp only [UInt8.le_iff_toNat_le, toNat_follow (bits_lt (c.val / 64))]
    split <;> split <;> simp <;> omega
  spelled_eq := by
    show (c.val / 4096 * 64 + c.val / 64 % 64) * 64 + c.val % 64 = c.val
    omega

/-- Code points of more than sixteen bits are spelled in four bytes. -/
def fourBytes (hlow : 0x10000 ≤ c.val) : Spelling c where
  first := UInt8.ofNat (0xF0 + c.val / 262144)
  value := c.val / 262144
  low := if c.val / 262144 = 0 then 0x90 else 0x80
  high := if c.val / 262144 = 4 then 0x8F else 0xBF
  payload := [c.val / 4096 % 64, c.val / 64 % 64, c.val % 64]
  bytes := by
    have hone : ¬c.val < 0x80 := by omega
    have htwo : ¬c.val < 0x800 := by omega
    simp [bytesOf, hone, htwo, Nat.not_lt.2 hlow, follow]
  lead_first := lead_four (c.val / 262144) (by omega)
  six := by
    simpa using
      And.intro (bits_lt (c.val / 4096)) (And.intro (bits_lt (c.val / 64)) (bits_lt c.val))
  -- No code point is beyond 0x10FFFF, which is what the upper bound says.
  admitted := by
    have hlt := c.isLt
    intro bits hmem
    obtain rfl : c.val / 4096 % 64 = bits := by simpa using hmem
    simp only [UInt8.le_iff_toNat_le, toNat_follow (bits_lt (c.val / 4096))]
    split <;> split <;> simp <;> omega
  spelled_eq := by
    show ((c.val / 262144 * 64 + c.val / 4096 % 64) * 64 + c.val / 64 % 64) * 64 + c.val % 64 =
      c.val
    omega

end Spelling

/-- Every code point but the halves of surrogate pairs has a spelling. -/
theorem exists_spelling {c : CodePoint} (h : c.isSurrogate = false) : Nonempty (Spelling c) := by
  have hsurrogate : ¬(0xD800 ≤ c.val ∧ c.val < 0xE000) := by
    simpa [CodePoint.isSurrogate] using h
  by_cases hone : c.val < 0x80
  · exact ⟨.oneByte hone⟩
  by_cases htwo : c.val < 0x800
  · exact ⟨.twoBytes (Nat.not_lt.1 hone) htwo⟩
  by_cases hthree : c.val < 0x10000
  · exact ⟨.threeBytes (Nat.not_lt.1 htwo) hthree hsurrogate⟩
  · exact ⟨.fourBytes (Nat.not_lt.1 hthree)⟩

/-! ### Reading -/

section

variable {c : CodePoint} (h : c.isSurrogate = false)

include h

/-- A whole spelling is read as the code point, whatever stands behind it. -/
theorem readLenient_bytesOf (rest : List UInt8) :
    readLenient (bytesOf c ++ rest) = c :: readLenient rest := by
  obtain ⟨s⟩ := exists_spelling h
  have hpiece : piece s.first (s.payload.map follow ++ rest) = .char c (1 + s.payload.length) := by
    have hchar : CodePoint.ofNat c.val = c := Fin.ofNat_val_eq_self c
    rw [piece, s.lead_first]
    simp only [continuation_eq_char s.first s.value 1 s.six s.admitted rest, s.spelled_eq, hchar]
  have hdrop : (s.payload.map follow ++ rest).drop (1 + s.payload.length - 1) = rest := by
    rw [Nat.add_sub_cancel_left]
    exact List.drop_left' (List.length_map _)
  rw [readLenient, s.bytes, List.cons_append, pieces, hpiece]
  simp only [Piece.width, hdrop, List.map_cons, Piece.shown]
  rfl

/-- A spelling that breaks off is shown once, however much of it is there. -/
theorem readLenient_take {count : Nat} (hpos : 0 < count) (hcount : count < (bytesOf c).length) :
    readLenient ((bytesOf c).take count) = [CodePoint.replacement] := by
  obtain ⟨s⟩ := exists_spelling h
  obtain ⟨taken, rfl⟩ : ∃ taken, count = taken + 1 := ⟨count - 1, by omega⟩
  have hbytes : (bytesOf c).take (taken + 1) = s.first :: (s.payload.take taken).map follow := by
    rw [s.bytes, List.take_succ_cons, List.map_take]
  have hshort : (s.payload.take taken).length < s.payload.length := by
    rw [s.bytes, List.length_cons, List.length_map] at hcount
    rw [List.length_take]
    omega
  have hsix : ∀ bits ∈ s.payload.take taken, bits < 64 :=
    fun bits hmem => s.six bits (List.mem_of_mem_take hmem)
  have hadmitted : ∀ bits ∈ (s.payload.take taken).head?,
      s.low ≤ follow bits ∧ follow bits ≤ s.high := by
    intro bits hmem
    rw [List.head?_take] at hmem
    split at hmem
    · cases hmem
    · exact s.admitted bits hmem
  -- The piece is all that there is.
  have hdrop : ((s.payload.take taken).map follow).drop
      (1 + (s.payload.take taken).length - 1) = [] := by
    rw [Nat.add_sub_cancel_left]
    exact List.drop_eq_nil_of_le (Nat.le_of_eq (List.length_map _))
  rw [hbytes, readLenient, pieces, piece, s.lead_first]
  simp only [continuation_eq_flawed s.first s.value 1 hsix hadmitted hshort, Piece.width, hdrop]
  rw [pieces]
  rfl

/-- Behind the first byte of a spelling nothing starts. -/
theorem lead_of_mem_tail : ∀ b ∈ (bytesOf c).tail, lead b = none := by
  obtain ⟨s⟩ := exists_spelling h
  intro b hb
  rw [s.bytes, List.tail_cons] at hb
  obtain ⟨bits, hbits, rfl⟩ := List.mem_map.1 hb
  exact lead_follow bits (s.six bits hbits)

end

/-- Spellings one after the other are read as the text, whatever stands behind
them. -/
theorem readLenient_flatMap {text : Text} (h : ∀ c ∈ text, c.isSurrogate = false)
    (rest : List UInt8) :
    readLenient (text.flatMap bytesOf ++ rest) = text ++ readLenient rest := by
  induction text with
  | nil => rfl
  | cons c text ih =>
    obtain ⟨hc, htext⟩ := List.forall_mem_cons.1 h
    rw [List.flatMap_cons, List.append_assoc, readLenient_bytesOf hc, ih htext, List.cons_append]

/-- Bytes that start nothing are shown one by one. -/
theorem readLenient_unled {bytes : List UInt8} (h : ∀ b ∈ bytes, lead b = none)
    (rest : List UInt8) : readLenient (bytes ++ rest) =
      List.replicate bytes.length CodePoint.replacement ++ readLenient rest := by
  induction bytes with
  | nil => rfl
  | cons b bytes ih =>
    obtain ⟨hb, hbytes⟩ := List.forall_mem_cons.1 h
    have hpiece : piece b (bytes ++ rest) = .flawed .badStart b 1 := by
      rw [piece, hb]
    rw [List.cons_append, readLenient, pieces, hpiece, List.length_cons, List.replicate_succ,
      List.cons_append, ← ih hbytes]
    rfl

end Flowchart.Text.Utf8
