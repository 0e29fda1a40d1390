import PennCloud.Lib.Text
import PennCloud.Backend.Tablet

/-!
# The columns of a storage row

All a user keeps in the web storage is in one row, `<username>-storage`, and
everything about it is in the *names* of its columns. An item – a file or a
folder – is known by its path, the names from the root on joined by `/`, and has

* a **marker** under the path itself, `KV-File`, `KV-Folder` or, for a folder that
  was deleted, `DEL KV-Folder`;
* under the path with `-metadata` a comma-separated list: the paths of the
  children for a folder, the names of the chunks for a file;
* for a file, the content of each chunk under `<path>-<i>-content` (and in one
  piece under `<path>-content`, as an older version stored it).

The root has no marker and its listing is the column `metadata`. These are the
`PennCloud.StorageSlot`s of a row, and `PennCloud.StorageSlot.column` the columns they are kept
in. A name that `isValidName` accepts has no `-` and no `/` in it, and so two
slots are never kept in the same column – but for one pair: an item `metadata`
at the root has its marker where the listing of the root is
(`PennCloud.StorageSlot.column_eq_iff`).
-/

namespace PennCloud

open Wire Text

/-! ### Names and paths -/

/-- `[A-Za-z0-9()_ ]`. -/
def isNameChar (b : UInt8) : Bool :=
  (65 ≤ b && b ≤ 90) || (97 ≤ b && b ≤ 122) || (48 ≤ b && b ≤ 57) ||
    b == 40 || b == 41 || b == 95 || b == 32

/-- A segment of a name: one or more of these characters. -/
def isSegment (s : Bytes) : Bool := s ≠ [] && s.all isNameChar

/-- A name is one segment, or two of them with a dot between. -/
def isValidName (s : Bytes) : Bool :=
  match s.splitOn 46 with
  | [a] => isSegment a
  | [a, b] => isSegment a && isSegment b
  | _ => false

/-- The path of an item: valid names joined by `/`. -/
def IsPath (p : Bytes) : Prop := ∀ n ∈ p.splitOn 47, isValidName n = true

instance (p : Bytes) : Decidable (IsPath p) := List.decidableBAll _ _

/-- The path of a folder, which is empty for the root. -/
def IsFolderPath (p : Bytes) : Prop := p = [] ∨ IsPath p

instance (p : Bytes) : Decidable (IsFolderPath p) := inferInstanceAs (Decidable (_ ∨ _))

/-- The path of the item with a name in a folder. -/
def inFolder (folder name : Bytes) : Bytes := if folder = [] then name else folder ++ 47 :: name

/-- What the characters of a path are. -/
def IsPathChar (b : UInt8) : Prop := isNameChar b = true ∨ b = 46 ∨ b = 47

theorem mem_of_mem_splitOn_intercalate {c b : UInt8} {s : Bytes} (h : b ∈ s) :
    b = c ∨ ∃ t ∈ s.splitOn c, b ∈ t := by
  induction s with
  | nil => exact absurd h List.not_mem_nil
  | cons x s ih =>
    rw [List.splitOn_cons_eq_if_modifyHead]
    rcases hs : s.splitOn c with _ | ⟨t, ts⟩
    · exact absurd hs (List.splitOn_ne_nil c s)
    · rw [hs] at ih
      by_cases hx : x = c
      · rcases List.mem_cons.mp h with rfl | h
        · exact Or.inl hx
        · refine (ih h).imp_right fun ⟨t', ht', hb⟩ => ⟨t', ?_, hb⟩
          simp only [hx, beq_self_eq_true, if_true]
          exact List.mem_cons_of_mem [] ht'
      · simp only [beq_iff_eq, hx, if_false, List.modifyHead_cons]
        rcases List.mem_cons.mp h with rfl | h
        · exact Or.inr ⟨b :: t, List.mem_cons_self, List.mem_cons_self⟩
        · refine (ih h).imp_right ?_
          rintro ⟨t', ht', hb⟩
          rcases List.mem_cons.mp ht' with rfl | ht'
          · exact ⟨x :: t', List.mem_cons_self, List.mem_cons_of_mem x hb⟩
          · exact ⟨t', List.mem_cons_of_mem _ ht', hb⟩

theorem isSegment_char {s : Bytes} (h : isSegment s = true) {b : UInt8} (hb : b ∈ s) :
    isNameChar b = true := by
  simp only [isSegment, Bool.and_eq_true, List.all_eq_true] at h
  exact h.2 b hb

theorem isValidName_char {n : Bytes} (h : isValidName n = true) {b : UInt8} (hb : b ∈ n) :
    isNameChar b = true ∨ b = 46 := by
  rcases mem_of_mem_splitOn_intercalate (c := 46) hb with rfl | ⟨t, ht, hbt⟩
  · exact Or.inr rfl
  · refine Or.inl ?_
    rw [isValidName] at h
    split at h
    · next a hs =>
      rw [hs, List.mem_singleton] at ht
      exact isSegment_char h (ht ▸ hbt)
    · next a a' hs =>
      rw [Bool.and_eq_true] at h
      rw [hs, List.mem_cons, List.mem_singleton] at ht
      rcases ht with rfl | rfl
      · exact isSegment_char h.1 hbt
      · exact isSegment_char h.2 hbt
    · exact absurd h (by decide)

theorem isValidName_ne_nil {n : Bytes} (h : isValidName n = true) : n ≠ [] := by
  rintro rfl
  exact absurd h (by decide)

theorem isSegment_iff {s : Bytes} :
    isSegment s = true ↔ s ≠ [] ∧ ∀ x ∈ s, isNameChar x = true := by
  rw [isSegment, Bool.and_eq_true, decide_eq_true_iff, List.all_eq_true]

/-- A segment has no dot. -/
theorem notMem_of_isSegment {s : Bytes} (h : isSegment s = true) : 46 ∉ s := fun hmem =>
  absurd ((isSegment_iff.mp h).2 46 hmem) (by decide)

theorem isValidName_iff {n : Bytes} : isValidName n = true ↔ isSegment n = true ∨
    ∃ a c, n = a ++ 46 :: c ∧ isSegment a = true ∧ isSegment c = true := by
  constructor
  · intro h
    have heq := @List.intercalate_splitOn _ n _ _ 46
    rw [isValidName] at h
    split at h
    · next a hs =>
      rw [hs] at heq
      obtain rfl : a = n := by simpa using heq
      exact Or.inl h
    · next a c hs =>
      rw [hs] at heq
      rw [Bool.and_eq_true] at h
      exact Or.inr ⟨a, c, by simpa using heq.symm, h.1, h.2⟩
    · exact absurd h (by decide)
  · rintro (h | ⟨a, c, rfl, ha, hc⟩)
    · rw [isValidName, List.splitOn_eq_singleton (notMem_of_isSegment h)]
      exact h
    · rw [isValidName, List.splitOn_append_cons_self,
        List.splitOn_eq_singleton (notMem_of_isSegment ha),
        List.splitOn_eq_singleton (notMem_of_isSegment hc)]
      exact Bool.and_eq_true_iff.mpr ⟨ha, hc⟩

/-- A name has no `/`, so it is a path. -/
theorem notMem_of_isValidName {n : Bytes} (h : isValidName n = true) : 47 ∉ n := by
  intro hmem
  exact absurd (isValidName_char h hmem) (by decide)

theorem IsPath.of_isValidName {n : Bytes} (h : isValidName n = true) : IsPath n := by
  intro m hm
  rw [List.splitOn_eq_singleton (notMem_of_isValidName h), List.mem_singleton] at hm
  exact hm ▸ h

section Path

variable {p : Bytes} (h : IsPath p)
include h

theorem IsPath.isPathChar {b : UInt8} (hb : b ∈ p) : IsPathChar b := by
  rcases mem_of_mem_splitOn_intercalate (c := 47) hb with rfl | ⟨t, ht, hbt⟩
  · exact Or.inr (Or.inr rfl)
  · exact (isValidName_char (h t ht) hbt).imp_right Or.inl

theorem IsPath.ne_nil : p ≠ [] := by
  rintro rfl
  exact absurd h (by decide)

/-- A path has no `-`. -/
theorem IsPath.notMem_dash : 45 ∉ p := by
  intro hmem
  exact absurd (h.isPathChar hmem) (by rw [IsPathChar]; decide)

/-- A path has no comma. -/
theorem IsPath.notMem_comma : 44 ∉ p := by
  intro hmem
  exact absurd (h.isPathChar hmem) (by rw [IsPathChar]; decide)

/-- A path extended by a name is a path. -/
theorem IsPath.append {n : Bytes} (hn : isValidName n = true) : IsPath (p ++ 47 :: n) := by
  intro m hm
  rw [List.splitOn_append_cons_self, List.mem_append,
    List.splitOn_eq_singleton (notMem_of_isValidName hn), List.mem_singleton] at hm
  rcases hm with hm | rfl
  · exact h m hm
  · exact hn

end Path

theorem IsPath.inFolder {folder n : Bytes} (hf : IsFolderPath folder) (hn : isValidName n = true) :
    IsPath (inFolder folder n) := by
  rw [PennCloud.inFolder]
  rcases hf with rfl | hf
  · exact IsPath.of_isValidName hn
  · rw [if_neg hf.ne_nil]
    exact hf.append hn

/-! ### Slots -/

/-- The listing of a folder. -/
def metaCol (folder : Bytes) : Bytes :=
  if folder = [] then ascii "metadata" else folder ++ ascii "-metadata"

/-- What a row keeps: the listing of the root, and four kinds of things about the
item of each path. -/
inductive StorageSlot where
  /-- The listing of the root. -/
  | rootListing
  /-- The listing or the list of chunks of an item. -/
  | metadata (p : {p : Bytes // IsPath p})
  /-- The marker of an item. -/
  | marker (p : {p : Bytes // IsPath p})
  /-- The content of a chunk. -/
  | chunk (p : {p : Bytes // IsPath p}) (i : ℕ)
  /-- The content of a file in one piece. -/
  | content (p : {p : Bytes // IsPath p})

namespace StorageSlot

/-- The item that the column of a slot begins with. -/
def stem : StorageSlot → Bytes
  | .rootListing => ascii "metadata"
  | .metadata p => p
  | .marker p => p
  | .chunk p _ => p
  | .content p => p

/-- What the column has behind it. -/
def suffix : StorageSlot → Bytes
  | .rootListing => []
  | .metadata _ => ascii "-metadata"
  | .marker _ => []
  | .chunk _ i => ascii "-" ++ decimal i ++ ascii "-content"
  | .content _ => ascii "-content"

/-- The column a slot is kept in. -/
def column (s : StorageSlot) : Bytes := s.stem ++ s.suffix

theorem notMem_stem (s : StorageSlot) : 45 ∉ s.stem := by
  cases s with
  | rootListing => decide
  | metadata p => exact p.2.notMem_dash
  | marker p => exact p.2.notMem_dash
  | chunk p i => exact p.2.notMem_dash
  | content p => exact p.2.notMem_dash

theorem head_suffix (s : StorageSlot) : ∀ b ∈ s.suffix.head?, b = 45 := by
  intro b hb
  cases s with
  | rootListing => exact absurd hb (by simp [suffix])
  | metadata p => exact (Option.some.inj hb).symm
  | marker p => exact absurd hb (by simp [suffix])
  | chunk p i => exact (Option.some.inj hb).symm
  | content p => exact (Option.some.inj hb).symm

/-- The column determines the item and what is behind it. -/
theorem stem_suffix_of_column {s t : StorageSlot} (h : s.column = t.column) :
    s.stem = t.stem ∧ s.suffix = t.suffix :=
  append_inj_of_notMem s.notMem_stem t.notMem_stem s.head_suffix t.head_suffix h

/-- A number is not the beginning of a word. -/
theorem chunk_suffix_ne {i : ℕ} {w : Bytes} {b : UInt8} (hb : ¬IsDigit b) :
    ascii "-" ++ decimal i ++ ascii "-content" ≠ 45 :: b :: w := by
  intro h
  rcases hd : decimal i with _ | ⟨d, ds⟩
  · exact decimal_ne_nil i hd
  · rw [hd] at h
    have hdb : d = b := (List.cons.inj (List.cons.inj h).2).1
    exact hb (hdb ▸ isDigit_of_mem_decimal (hd ▸ List.mem_cons_self))

/-- The number of a chunk can be read off. -/
theorem chunk_suffix_inj {i j : ℕ} (h : ascii "-" ++ decimal i ++ ascii "-content" =
    ascii "-" ++ decimal j ++ ascii "-content") : i = j :=
  decimal_injective (List.append_cancel_left (List.append_cancel_right h))

/-- The marker of an item `metadata` at the root. -/
def IsMetadata (s : StorageSlot) : Prop := ∃ p, s = .marker p ∧ p.1 = ascii "metadata"

/-- The two slots that share a column. -/
def Collides (s t : StorageSlot) : Prop :=
  (s = .rootListing ∧ t.IsMetadata) ∨ (s.IsMetadata ∧ t = .rootListing)

/-- **Slots in the same column** are the same slot, or the listing of the root and
the marker of an item `metadata`. -/
theorem column_eq_iff {s t : StorageSlot} : s.column = t.column ↔ s = t ∨ s.Collides t := by
  constructor
  · intro h
    obtain ⟨hstem, hsuffix⟩ := stem_suffix_of_column h
    rcases s with _ | p | p | ⟨p, i⟩ | p <;> rcases t with _ | q | q | ⟨q, j⟩ | q
    · exact Or.inl rfl
    · exact absurd hsuffix (by simp [suffix]; decide)
    · exact Or.inr (Or.inl ⟨rfl, q, rfl, hstem.symm⟩)
    · exact absurd hsuffix.symm (by simp [suffix, decimal_ne_nil])
    · exact absurd hsuffix (by simp [suffix]; decide)
    · exact absurd hsuffix (by simp [suffix]; decide)
    · exact Or.inl (congrArg metadata (Subtype.ext hstem))
    · exact absurd hsuffix (by simp [suffix]; decide)
    · exact absurd hsuffix.symm (chunk_suffix_ne (by rw [IsDigit]; decide))
    · exact absurd hsuffix (by simp [suffix]; decide)
    · exact Or.inr (Or.inr ⟨⟨p, rfl, hstem⟩, rfl⟩)
    · exact absurd hsuffix (by simp [suffix]; decide)
    · exact Or.inl (congrArg marker (Subtype.ext hstem))
    · exact absurd hsuffix.symm (by simp [suffix, decimal_ne_nil])
    · exact absurd hsuffix (by simp [suffix]; decide)
    · exact absurd hsuffix (by simp [suffix, decimal_ne_nil])
    · exact absurd hsuffix (chunk_suffix_ne (by rw [IsDigit]; decide))
    · exact absurd hsuffix (by simp [suffix, decimal_ne_nil])
    · obtain rfl : p = q := Subtype.ext hstem
      rw [chunk_suffix_inj hsuffix]
      exact Or.inl rfl
    · exact absurd hsuffix (chunk_suffix_ne (by rw [IsDigit]; decide))
    · exact absurd hsuffix (by simp [suffix]; decide)
    · exact absurd hsuffix (by simp [suffix]; decide)
    · exact absurd hsuffix (by simp [suffix]; decide)
    · exact absurd hsuffix.symm (chunk_suffix_ne (by rw [IsDigit]; decide))
    · exact Or.inl (congrArg content (Subtype.ext hstem))
  · rintro (rfl | ⟨rfl, q, rfl, hq⟩ | ⟨⟨p, rfl, hp⟩, rfl⟩)
    · rfl
    · rw [column, column, stem, stem, hq]
      rfl
    · rw [column, column, stem, stem, hp]
      rfl

/-- A write to one slot leaves another one alone. -/
def Apart (s t : StorageSlot) : Prop :=
  s.column ≠ t.column ∧ ∀ (kvs : Tablet) (row value : Bytes),
    (kvs.put row s.column value).cells (row, t.column) = kvs.cells (row, t.column) ∧
      (kvs.delete row s.column).cells (row, t.column) = kvs.cells (row, t.column)

/-- **When different slots are kept apart.** Two slots have different columns, and
writing or deleting one leaves the other as it is, unless they are the listing of
the root and the marker of an item `metadata`. -/
theorem apart_iff (s t : StorageSlot) : (s ≠ t → s.Apart t) ↔ ¬s.Collides t := by
  constructor
  · intro h hcol
    have hne : s ≠ t := by
      rintro rfl
      rcases hcol with ⟨rfl, q, hq, -⟩ | ⟨⟨q, rfl, -⟩, hq⟩ <;> exact absurd hq (by simp)
    exact (h hne).1 (column_eq_iff.mpr (Or.inr hcol))
  · intro hcol hne
    have hcolumn : s.column ≠ t.column := fun h =>
      (column_eq_iff.mp h).elim hne hcol
    refine ⟨hcolumn, fun kvs row value => ?_⟩
    have hcell : (row, t.column) ≠ (row, s.column) := fun h =>
      hcolumn (Prod.mk.inj h).2.symm
    constructor
    · rw [Tablet.cells_put, Function.update_of_ne hcell]
    · rw [Tablet.cells_delete, Function.update_of_ne hcell]

/-- **A folder `metadata` at the root shares a column with the root's listing**,
which its marker replaces. -/
theorem metadata_shared :
    ¬(StorageSlot.rootListing ≠ .marker ⟨ascii "metadata", by decide⟩ →
      StorageSlot.Apart .rootListing (.marker ⟨ascii "metadata", by decide⟩)) := by
  intro h
  exact (h (by simp)).1 rfl

end StorageSlot

end PennCloud
