import PennCloud.Lib.Wire

/-!
# Messages of protocol buffers

What a library for remote calls asks of a message before it hands it on.

* A field of type `string` has to be UTF-8 (`Wire.isUtf8`): each byte that begins a
  character says which bytes may follow it. A text with ASCII characters behind it is
  UTF-8 exactly when the text is (`Wire.isUtf8_append_ascii`).
* A message must not be too long. A field is written with a tag of one byte and its
  length, in groups of seven bits; one that is empty is not written at all
  (`Wire.fieldSize`).
-/

namespace Wire

/-! ### UTF-8 -/

/-- The ranges of the bytes that have to follow a byte that begins a character; `none`
for a byte that begins none. -/
def leadRanges (b : UInt8) : Option (List (UInt8 × UInt8)) :=
  if b < 0x80 then some []
  else if b < 0xC2 then none
  else if b < 0xE0 then some [(0x80, 0xBF)]
  -- no character has two encodings
  else if b = 0xE0 then some [(0xA0, 0xBF), (0x80, 0xBF)]
  -- no character is one of the surrogates
  else if b = 0xED then some [(0x80, 0x9F), (0x80, 0xBF)]
  else if b < 0xF0 then some [(0x80, 0xBF), (0x80, 0xBF)]
  else if b = 0xF0 then some [(0x90, 0xBF), (0x80, 0xBF), (0x80, 0xBF)]
  else if b < 0xF4 then some [(0x80, 0xBF), (0x80, 0xBF), (0x80, 0xBF)]
  -- the last character is `10FFFF`
  else if b = 0xF4 then some [(0x80, 0x8F), (0x80, 0xBF), (0x80, 0xBF)]
  else none

/-- The bytes are UTF-8 when some of a character are still to come. -/
def isUtf8From : List (UInt8 × UInt8) → Bytes → Bool
  | [], [] => true
  | _ :: _, [] => false
  | [], b :: s =>
    match leadRanges b with
    | none => false
    | some ranges => isUtf8From ranges s
  | range :: ranges, b :: s => decide (range.1 ≤ b) && decide (b ≤ range.2) && isUtf8From ranges s

/-- **The bytes are UTF-8.** -/
def isUtf8 (s : Bytes) : Bool := isUtf8From [] s

theorem isUtf8From_cons {b : UInt8} (hb : b < 0x80) (s : Bytes) :
    isUtf8From [] (b :: s) = isUtf8From [] s := by
  rw [isUtf8From, leadRanges, if_pos hb]

theorem isUtf8_of_ascii {s : Bytes} (hs : ∀ b ∈ s, b < 0x80) : isUtf8 s = true := by
  induction s with
  | nil => rfl
  | cons b s ih =>
    rw [isUtf8, isUtf8From_cons (hs b List.mem_cons_self)]
    exact ih fun c hc => hs c (List.mem_cons_of_mem b hc)

/-- What follows a byte is not ASCII. -/
theorem le_of_mem_leadRanges {b : UInt8} {ranges : List (UInt8 × UInt8)}
    (h : leadRanges b = some ranges) : ∀ r ∈ ranges, 0x80 ≤ r.1 := by
  have h80 : (0x80 : UInt8) ≤ 0x80 := UInt8.le_refl _
  have h90 : (0x80 : UInt8) ≤ 0x90 := UInt8.le_iff_toNat_le.mpr (by decide)
  have hA0 : (0x80 : UInt8) ≤ 0xA0 := UInt8.le_iff_toNat_le.mpr (by decide)
  rw [leadRanges] at h
  repeat' split at h
  all_goals cases h
  all_goals simp only [List.forall_mem_cons, List.not_mem_nil, false_implies, implies_true,
    h80, h90, hA0, and_self]

theorem isUtf8From_append_ascii {t : Bytes} (hne : t ≠ []) (ht : ∀ b ∈ t, b < 0x80) {s : Bytes}
    {ranges : List (UInt8 × UInt8)} (hranges : ∀ r ∈ ranges, 0x80 ≤ r.1) :
    isUtf8From ranges (s ++ t) = isUtf8From ranges s := by
  induction s generalizing ranges with
  | nil =>
    cases ranges with
    | nil => exact isUtf8_of_ascii ht
    | cons r ranges =>
      obtain ⟨b, t, rfl⟩ := List.exists_cons_of_ne_nil hne
      have hb := ht b List.mem_cons_self
      have hr := hranges r List.mem_cons_self
      have hout : ¬r.1 ≤ b := UInt8.not_le.mpr (UInt8.lt_of_lt_of_le hb hr)
      rw [List.nil_append, isUtf8From, isUtf8From, decide_eq_false hout]
      rfl
  | cons b s ih =>
    cases ranges with
    | nil =>
      rw [List.cons_append, isUtf8From, isUtf8From]
      rcases hlead : leadRanges b with _ | ranges
      · rfl
      · exact ih (le_of_mem_leadRanges hlead)
    | cons r ranges =>
      rw [List.cons_append, isUtf8From, isUtf8From,
        ih fun r' hr' => hranges r' (List.mem_cons_of_mem r hr')]

/-- **ASCII characters behind a text** make no difference. -/
theorem isUtf8_append_ascii {t : Bytes} (hne : t ≠ []) (ht : ∀ b ∈ t, b < 0x80) (s : Bytes) :
    isUtf8 (s ++ t) = isUtf8 s :=
  isUtf8From_append_ascii hne ht (by simp)

/-! ### The length of a message -/

/-- The bytes of a length, seven bits in each; the lengths are below `2 ^ 32`. -/
def varintSize (n : ℕ) : ℕ :=
  if n < 2 ^ 7 then 1 else if n < 2 ^ 14 then 2 else if n < 2 ^ 21 then 3
  else if n < 2 ^ 28 then 4 else 5

/-- The bytes of a field: its tag, its length and what it holds. -/
def fieldSize (s : Bytes) : ℕ := if s = [] then 0 else 1 + varintSize s.length + s.length

/-- A field that holds something is three bytes at least. -/
theorem three_le_fieldSize {s : Bytes} (h : s ≠ []) : 3 ≤ fieldSize s := by
  have hpos := List.length_pos_of_ne_nil h
  rw [fieldSize, if_neg h, varintSize]
  split_ifs <;> omega

end Wire
