import Mathlib.Data.List.Basic
import Mathlib.Tactic.Ring

/-!
# Bytes on the wire

A byte string is a list of bytes; a reader takes what it needs off the front of
its input and hands on the rest, or fails because the input is too short. On top
of that stand the two things a binary format of counts and strings is made of:

* a 32-bit count, written in little-endian order (`Wire.u32`, `Wire.readU32`).
  Counts from `2 ^ 32` on are written modulo `2 ^ 32`: the writer does not
  notice, and what is read back is the remainder (`Wire.readU32_u32`);
* a byte string cut into chunks of a fixed size (`Wire.chunks`), which are the
  string again once put back together (`Wire.chunks_flatten`).

`Wire.getlines` is the loop that reads pieces up to a delimiter, and
`Wire.getlines_intercalate` what it makes of pieces joined by it; `Wire.ascii`
spells a text constant as bytes.
-/

namespace Wire

/-- A byte string. -/
abbrev Bytes := List UInt8

/-- A text made of ASCII characters, as bytes. -/
def ascii (s : String) : Bytes := s.toList.map fun c => UInt8.ofNat c.toNat

/-! ### Reading a number of bytes -/

/-- Take `n` bytes off the front of the input; fails when there are fewer. -/
def read (n : ℕ) (inp : Bytes) : Option (Bytes × Bytes) :=
  if n ≤ inp.length then some (inp.take n, inp.drop n) else none

theorem read_append (s rest : Bytes) : read s.length (s ++ rest) = some (s, rest) := by
  simp [read]

/-- A read succeeds by splitting the input. -/
theorem read_eq_some {n : ℕ} {inp s rest : Bytes} (h : read n inp = some (s, rest)) :
    inp = s ++ rest ∧ s.length = n := by
  rw [read] at h
  split_ifs at h with hn
  obtain ⟨rfl, rfl⟩ : inp.take n = s ∧ inp.drop n = rest := by simpa using h
  refine ⟨(List.take_append_drop n inp).symm, ?_⟩
  rw [List.length_take]
  omega

/-! ### 32-bit counts -/

/-- A count as four bytes, the lowest first; only its lowest 32 bits are
written. -/
def u32 (n : ℕ) : Bytes :=
  [UInt8.ofNat n, UInt8.ofNat (n / 2 ^ 8), UInt8.ofNat (n / 2 ^ 16), UInt8.ofNat (n / 2 ^ 24)]

/-- Four bytes read as a count, the lowest first. -/
def ofBytes : Bytes → ℕ
  | [] => 0
  | b :: bs => b.toNat + 2 ^ 8 * ofBytes bs

/-- Read a 32-bit count. -/
def readU32 (inp : Bytes) : Option (ℕ × Bytes) :=
  (read 4 inp).map fun (s, rest) => (ofBytes s, rest)

@[simp] theorem length_u32 (n : ℕ) : (u32 n).length = 4 := rfl

theorem ofBytes_u32 (n : ℕ) : ofBytes (u32 n) = n % 2 ^ 32 := by
  simp only [u32, ofBytes, UInt8.toNat_ofNat']
  omega

/-- **A count comes back modulo `2 ^ 32`.** -/
theorem readU32_u32 (n : ℕ) (rest : Bytes) :
    readU32 (u32 n ++ rest) = some (n % 2 ^ 32, rest) := by
  have h : read 4 (u32 n ++ rest) = some (u32 n, rest) := read_append (u32 n) rest
  rw [readU32, h, Option.map_some]
  exact congrArg (fun m => some (m, rest)) (ofBytes_u32 n)

theorem readU32_u32_of_lt {n : ℕ} (h : n < 2 ^ 32) (rest : Bytes) :
    readU32 (u32 n ++ rest) = some (n, rest) := by
  rw [readU32_u32, Nat.mod_eq_of_lt h]

theorem readU32_length {inp rest : Bytes} {n : ℕ} (h : readU32 inp = some (n, rest)) :
    inp.length = 4 + rest.length := by
  obtain ⟨⟨s, rest'⟩, hr, he⟩ := Option.map_eq_some_iff.mp h
  obtain rfl : rest' = rest := congrArg Prod.snd he
  obtain ⟨rfl, hs⟩ := read_eq_some hr
  rw [List.length_append, hs]

theorem ofBytes_lt (s : Bytes) : ofBytes s < 2 ^ (8 * s.length) := by
  induction s with
  | nil => exact Nat.one_pos
  | cons b bs ih =>
    have hb : b.toNat < 2 ^ 8 := b.toNat_lt
    have hpow : 2 ^ (8 * (b :: bs).length) = 2 ^ 8 * 2 ^ (8 * bs.length) := by
      rw [← pow_add, List.length_cons]
      congr 1
      omega
    rw [ofBytes, hpow]
    omega

/-- A count that has been read is one of 32 bits. -/
theorem readU32_lt {inp rest : Bytes} {n : ℕ} (h : readU32 inp = some (n, rest)) : n < 2 ^ 32 := by
  obtain ⟨⟨s, rest'⟩, hr, he⟩ := Option.map_eq_some_iff.mp h
  obtain rfl : ofBytes s = n := congrArg Prod.fst he
  obtain ⟨-, hs⟩ := read_eq_some hr
  have hlt := ofBytes_lt s
  rwa [hs] at hlt

/-- Four bytes are those of the count they are read as. -/
theorem u32_ofBytes {s : Bytes} (h : s.length = 4) : u32 (ofBytes s) = s := by
  obtain ⟨a, b, c, d, rfl⟩ : ∃ a b c d, s = [a, b, c, d] := by
    match s, h with
    | [a, b, c, d], _ => exact ⟨a, b, c, d, rfl⟩
  have ha := a.toNat_lt
  have hb := b.toNat_lt
  have hc := c.toNat_lt
  have hd := d.toNat_lt
  simp only [u32, ofBytes, List.cons.injEq, and_true, ← UInt8.toNat_inj, UInt8.toNat_ofNat']
  omega

/-- A count is read off the four bytes it is written as. -/
theorem readU32_eq_append {inp rest : Bytes} {n : ℕ} (h : readU32 inp = some (n, rest)) :
    inp = u32 n ++ rest := by
  obtain ⟨⟨s, rest'⟩, hr, he⟩ := Option.map_eq_some_iff.mp h
  obtain ⟨rfl, rfl⟩ := Prod.mk.inj he
  obtain ⟨rfl, hs⟩ := read_eq_some hr
  rw [u32_ofBytes hs]

/-- The four bytes of a count determine it below `2 ^ 32`. -/
theorem u32_injective {m n : ℕ} (hm : m < 2 ^ 32) (hn : n < 2 ^ 32) (h : u32 m = u32 n) :
    m = n := by
  have h' := congrArg ofBytes h
  rwa [ofBytes_u32, ofBytes_u32, Nat.mod_eq_of_lt hm, Nat.mod_eq_of_lt hn] at h'

/-! ### Chunks -/

/-- A byte string cut into chunks of `n` bytes, the last one possibly shorter. -/
def chunks (n : ℕ) (data : Bytes) : List Bytes :=
  if _h : 0 < n ∧ data ≠ [] then data.take n :: chunks n (data.drop n) else []
termination_by data.length
decreasing_by
  have hlen : 0 < data.length := List.length_pos_of_ne_nil _h.2
  rw [List.length_drop]
  omega

/-- **Chunks put back together are the string they were cut from.** -/
theorem chunks_flatten {n : ℕ} (hn : 0 < n) (data : Bytes) : (chunks n data).flatten = data := by
  induction hlen : data.length using Nat.strong_induction_on generalizing data with
  | _ k ih =>
    rw [chunks]
    split_ifs with h
    · have hpos : 0 < data.length := List.length_pos_of_ne_nil h.2
      have hdrop : (data.drop n).length < k := by
        rw [List.length_drop]
        omega
      rw [List.flatten_cons, ih _ hdrop _ rfl, List.take_append_drop]
    · have hnil : data = [] := not_not.mp fun hne => h ⟨hn, hne⟩
      simp [hnil]

/-! ### Pieces up to a delimiter -/

/-- The pieces a loop of `getline` with a delimiter yields. A delimiter at the
very end opens no further piece. -/
def getlines (delim : UInt8) (s : Bytes) : List Bytes :=
  let pieces := s.splitOn delim
  if pieces.getLast? = some [] then pieces.dropLast else pieces

/-- **Pieces joined by the delimiter are read back**, provided they do not
contain it and the last one is not empty. -/
theorem getlines_intercalate {delim : UInt8} {pieces : List Bytes}
    (h : ∀ p ∈ pieces, delim ∉ p) (hne : ∀ p ∈ pieces, p ≠ []) (hnil : pieces ≠ []) :
    getlines delim ([delim].intercalate pieces) = pieces := by
  have hlast : pieces.getLast? ≠ some [] := by
    intro hl
    exact hne [] (List.mem_of_getLast? hl) rfl
  simp only [getlines, List.splitOn_intercalate delim h hnil, if_neg hlast]

/-- The first piece is read off. -/
theorem getlines_append_cons {delim : UInt8} {p : Bytes} (h : delim ∉ p) (s : Bytes) :
    getlines delim (p ++ delim :: s) = p :: getlines delim s := by
  have hne := List.splitOn_ne_nil delim s
  simp only [getlines, List.splitOn_append_cons_self, List.splitOn_eq_singleton h,
    List.singleton_append, List.getLast?_cons_of_ne_nil hne]
  split_ifs
  · exact List.dropLast_cons_of_ne_nil hne
  · rfl

/-- Pieces that each have the delimiter behind them are read back; they may be
empty. -/
theorem getlines_flatMap {delim : UInt8} {pieces : List Bytes} (h : ∀ p ∈ pieces, delim ∉ p) :
    getlines delim (pieces.flatMap (· ++ [delim])) = pieces := by
  induction pieces with
  | nil => rfl
  | cons p pieces ih =>
    have hrest := ih fun q hq => h q (List.mem_cons_of_mem p hq)
    rw [List.flatMap_cons, List.append_assoc, List.singleton_append,
      getlines_append_cons (h p List.mem_cons_self), hrest]

end Wire
