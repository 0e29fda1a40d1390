import PennCloud.Backend.Tablet

/-!
# The binary form of a tablet

`utils/serializer.cc` writes a tablet as a count of rows, and for each of them
its key, a count of columns and the columns; every count is a `uint32_t`, every
string is preceded by its length as a `uint32_t`. The same form is what a
checkpoint file holds and what `CopyTablet` streams.

* `PennCloud.deserializeTablet_serializeTablet` – reading a serialized tablet
  into an empty table succeeds and gives the cells of the tablet back, whatever
  the order the two `unordered_map`s were listed in, as long as the tablet
  *fits* the 32-bit lengths of the format (`PennCloud.Tablet.Fits`). A row
  without columns is written and lost, so the tablet itself comes back exactly
  when it has none (`PennCloud.deserializeTablet_exact`).
* `PennCloud.deserializeTablet_of_cut` – of the bytes of such a tablet the reader
  accepts all, but no part cut off at the front.
* `PennCloud.deserializeTablet_many_columns` – and beyond the bound: a row of
  exactly `2 ^ 32` columns is announced as one of none, and read back as such.
  `PennCloud.wideTablet` is the tablet a sequence of writes builds that way.
* `PennCloud.noEmptyRow_deserializeTablet` – whatever the bytes, the reader
  makes no row without columns.
-/

namespace PennCloud

open Wire KeyValue

/-! ### Strings -/

/-- Write a string: its length, as a `uint32_t`, and that many of its bytes. -/
def writeString (str : Bytes) : Bytes :=
  u32 str.length ++ str.take (str.length % 2 ^ 32)

/-- Read a string: a length, and that many bytes. -/
def readString (inp : Bytes) : Option (Bytes × Bytes) :=
  (readU32 inp).bind fun (len, inp) => read len inp

theorem readString_writeString {str : Bytes} (h : str.length < 2 ^ 32) (rest : Bytes) :
    readString (writeString str ++ rest) = some (str, rest) := by
  rw [readString, writeString, Nat.mod_eq_of_lt h, List.take_length, List.append_assoc,
    readU32_u32_of_lt h, Option.bind_some]
  exact read_append str rest

theorem readString_length {inp str rest : Bytes} (h : readString inp = some (str, rest)) :
    inp.length = 4 + str.length + rest.length := by
  obtain ⟨⟨len, inp'⟩, hlen, hread⟩ := Option.bind_eq_some_iff.mp h
  obtain ⟨rfl, -⟩ := read_eq_some hread
  rw [readU32_length hlen, List.length_append]
  omega

theorem readString_lt {inp str rest : Bytes} (h : readString inp = some (str, rest)) :
    str.length < 2 ^ 32 := by
  obtain ⟨⟨len, inp'⟩, hlen, hread⟩ := Option.bind_eq_some_iff.mp h
  obtain ⟨-, hstr⟩ := read_eq_some hread
  rw [hstr]
  exact readU32_lt hlen

/-- A string is read off the bytes it is written as. -/
theorem readString_eq_append {inp str rest : Bytes} (h : readString inp = some (str, rest)) :
    inp = writeString str ++ rest := by
  have hlt := readString_lt h
  obtain ⟨⟨len, inp'⟩, hlen, hread⟩ := Option.bind_eq_some_iff.mp h
  obtain ⟨rfl, rfl⟩ := read_eq_some hread
  rw [readU32_eq_append hlen, writeString, Nat.mod_eq_of_lt hlt, List.take_length,
    List.append_assoc]

/-! ### Writing a tablet -/

/-- **An iteration order** of the two kinds of `unordered_map`: every map is
listed once, each of its entries at some place. -/
structure IterOrder where
  /-- The order the rows of a tablet are listed in. -/
  rows : Tablet → List (Σ _ : Bytes, Columns)
  /-- The order the columns of a row are listed in. -/
  columns : Columns → List (Σ _ : Bytes, Bytes)
  /-- The rows listed are those of the tablet. -/
  rows_entries : ∀ table : Tablet, (rows table : Multiset (Σ _ : Bytes, Columns)) = table.entries
  /-- The columns listed are those of the row. -/
  columns_entries : ∀ innerMap : Columns,
    (columns innerMap : Multiset (Σ _ : Bytes, Bytes)) = innerMap.entries

/-- There is an iteration order. -/
noncomputable instance : Inhabited IterOrder :=
  ⟨fun table => table.entries.toList, fun innerMap => innerMap.entries.toList,
    fun table => Multiset.coe_toList table.entries,
    fun innerMap => Multiset.coe_toList innerMap.entries⟩

/-- `innerMap.size()`. -/
def Columns.size (innerMap : Columns) : ℕ := innerMap.entries.card

/-- `table.size()`. -/
def Tablet.size (table : Tablet) : ℕ := table.entries.card

/-- The bytes of one column. -/
def serializeColumn (e : Σ _ : Bytes, Bytes) : Bytes := writeString e.1 ++ writeString e.2

/-- The bytes of one row: its key, the number of its columns, the columns. -/
def serializeRow (ord : IterOrder) (e : Σ _ : Bytes, Columns) : Bytes :=
  writeString e.1 ++ u32 (Columns.size e.2) ++ (ord.columns e.2).flatMap serializeColumn

/-- Serialize a tablet to a binary string. -/
def serializeTablet (ord : IterOrder) (table : Tablet) : Bytes :=
  u32 table.size ++ (ord.rows table).flatMap (serializeRow ord)

/-! ### Reading a tablet -/

/-- The loop over the columns of a row. The second component is the input left,
or `none` when a read failed; the table holds what was read until then. -/
def deserializeColumns (row : Bytes) : ℕ → Tablet → Bytes → Tablet × Option Bytes
  | 0, table, inp => (table, some inp)
  | j + 1, table, inp =>
    match readString inp with
    | none => (table, none)
    | some (col, inp) =>
      match readString inp with
      | none => (table, none)
      -- `table[row][col] = val`: a row appears with its first column only
      | some (val, inp) => deserializeColumns row j (table.put row col val) inp

/-- The loop over the rows. -/
def deserializeRows : ℕ → Tablet → Bytes → Tablet × Option Bytes
  | 0, table, inp => (table, some inp)
  | i + 1, table, inp =>
    match readString inp with
    | none => (table, none)
    | some (row, inp) =>
      match readU32 inp with
      | none => (table, none)
      | some (innerSize, inp) =>
        match deserializeColumns row innerSize table inp with
        | (table, none) => (table, none)
        | (table, some inp) => deserializeRows i table inp

/-- Deserialize a tablet from a binary string, into a table: whether it
succeeded, and the table then. -/
def deserializeTablet (table : Tablet) (buffer : Bytes) : Bool × Tablet :=
  if buffer = [] then (true, table)
  else
    -- bytes after the last row are not looked at
    match readU32 buffer with
    | none => (false, table)
    | some (outerSize, inp) =>
      ((deserializeRows outerSize table inp).2.isSome, (deserializeRows outerSize table inp).1)

/-! ### What the reader makes of any bytes -/

section Invariant

variable (P : Tablet → Prop)

theorem deserializeColumns_invariant {row : Bytes}
    (hput : ∀ {table : Tablet}, P table → ∀ {col val : Bytes}, col.length < 2 ^ 32 →
      val.length < 2 ^ 32 → P (table.put row col val))
    (n : ℕ) {table : Tablet} (h : P table) (inp : Bytes) :
    P (deserializeColumns row n table inp).1 := by
  induction n generalizing table inp with
  | zero => exact h
  | succ n ih =>
    rw [deserializeColumns]
    split
    · exact h
    · rename_i hcol
      split
      · exact h
      · rename_i hval
        exact ih (hput h (readString_lt hcol) (readString_lt hval)) _

theorem deserializeRows_invariant
    (hput : ∀ {table : Tablet}, P table → ∀ {row col val : Bytes}, row.length < 2 ^ 32 →
      col.length < 2 ^ 32 → val.length < 2 ^ 32 → P (table.put row col val))
    (n : ℕ) {table : Tablet} (h : P table) (inp : Bytes) : P (deserializeRows n table inp).1 := by
  induction n generalizing table inp with
  | zero => exact h
  | succ n ih =>
    rw [deserializeRows]
    split
    · exact h
    · rename_i row _ hrow
      split
      · exact h
      · rename_i innerSize inp' _
        have hcols := deserializeColumns_invariant P
          (fun ht _ _ => hput ht (readString_lt hrow)) innerSize h inp'
        split
        · rename_i heq
          rw [heq] at hcols
          exact hcols
        · rename_i heq
          rw [heq] at hcols
          exact ih hcols _

/-- **The reader only puts cells**, and their strings have lengths it has read
from 32 bits; so what such a write keeps, the reader keeps, whatever the
bytes. -/
theorem deserializeTablet_invariant
    (hput : ∀ {table : Tablet}, P table → ∀ {row col val : Bytes}, row.length < 2 ^ 32 →
      col.length < 2 ^ 32 → val.length < 2 ^ 32 → P (table.put row col val))
    {table : Tablet} (h : P table) (buffer : Bytes) : P (deserializeTablet table buffer).2 := by
  rw [deserializeTablet]
  split_ifs
  · exact h
  · split
    · exact h
    · exact deserializeRows_invariant P hput _ h _

end Invariant

/-- **The reader never makes a row without columns.** -/
theorem noEmptyRow_deserializeTablet {table : Tablet} (h : table.NoEmptyRow) (buffer : Bytes) :
    (deserializeTablet table buffer).2.NoEmptyRow :=
  deserializeTablet_invariant Tablet.NoEmptyRow
    (fun ht _ _ _ _ _ _ => Tablet.noEmptyRow_put ht _ _ _) h buffer

/-! ### The tablets that fit the format -/

/-- The counts of a tablet are below `2 ^ 32`. -/
structure Tablet.Counts (table : Tablet) : Prop where
  /-- The number of rows. -/
  rows : table.size < 2 ^ 32
  /-- The numbers of columns. -/
  columns : ∀ row innerMap, table.lookup row = some innerMap → Columns.size innerMap < 2 ^ 32

/-- **A tablet fits the format** when its counts and the lengths of its strings
are below `2 ^ 32`. -/
structure Tablet.Fits (table : Tablet) : Prop extends Tablet.Counts table where
  /-- The lengths of the row keys. -/
  row : ∀ row innerMap, table.lookup row = some innerMap → row.length < 2 ^ 32
  /-- The lengths of the column keys. -/
  column : ∀ row innerMap, table.lookup row = some innerMap →
    ∀ col val, innerMap.lookup col = some val → col.length < 2 ^ 32
  /-- The lengths of the values. -/
  value : ∀ row innerMap, table.lookup row = some innerMap →
    ∀ col val, innerMap.lookup col = some val → val.length < 2 ^ 32

theorem Tablet.fits_empty : Tablet.Fits ∅ where
  rows := by decide
  columns := by simp
  row := by simp
  column := by simp
  value := by simp

/-- The strings of a tablet, read off its cells, are shorter than `2 ^ 32`
bytes. -/
def Tablet.Short (table : Tablet) : Prop :=
  ∀ row col val, table.cells (row, col) = some val →
    row.length < 2 ^ 32 ∧ col.length < 2 ^ 32 ∧ val.length < 2 ^ 32

theorem Tablet.short_empty : Tablet.Short ∅ := by
  intro row col val h
  exact absurd h (by simp)

/-- A write of short strings keeps the strings short. -/
theorem Tablet.short_put {table : Tablet} (h : table.Short) {row col val : Bytes}
    (hr : row.length < 2 ^ 32) (hc : col.length < 2 ^ 32) (hv : val.length < 2 ^ 32) :
    (table.put row col val).Short := by
  intro r c v hcell
  rw [Tablet.cells_put] at hcell
  rcases eq_or_ne (r, c) (row, col) with he | hne
  · obtain ⟨rfl, rfl⟩ := Prod.mk.inj he
    rw [Function.update_self] at hcell
    exact ⟨hr, hc, Option.some.inj hcell ▸ hv⟩
  · rw [Function.update_of_ne hne] at hcell
    exact h r c v hcell

theorem Tablet.short_delete {table : Tablet} (h : table.Short) (row col : Bytes) :
    (table.delete row col).Short := by
  intro r c v hcell
  rw [Tablet.cells_delete] at hcell
  rcases eq_or_ne (r, c) (row, col) with he | hne
  · rw [he, Function.update_self] at hcell
    exact absurd hcell (by simp)
  · rw [Function.update_of_ne hne] at hcell
    exact h r c v hcell

/-- **The strings the reader puts into a table are short**: it has read their
lengths. -/
theorem short_deserializeTablet {table : Tablet} (h : table.Short) (buffer : Bytes) :
    (deserializeTablet table buffer).2.Short :=
  deserializeTablet_invariant Tablet.Short (fun ht _ _ _ => Tablet.short_put ht) h buffer

/-- Without empty rows, the strings to bound are those of the cells. -/
theorem Tablet.fits_of_short {table : Tablet} (hne : table.NoEmptyRow) (hc : table.Counts)
    (hs : table.Short) : table.Fits := by
  have hcell : ∀ {row innerMap}, table.lookup row = some innerMap → ∀ {col val},
      innerMap.lookup col = some val → table.cells (row, col) = some val := by
    intro row innerMap hl col val hv
    simp [Tablet.cells, hl, hv]
  refine ⟨hc, fun row innerMap hl => ?_, fun row innerMap hl col val hv => ?_,
    fun row innerMap hl col val hv => ?_⟩
  · obtain ⟨col, val, hv⟩ : ∃ col val, innerMap.lookup col = some val := by
      -- a row has a column, so its key is in a cell
      by_contra hno
      refine hne row innerMap hl (Finmap.ext_lookup fun col => ?_)
      rw [Finmap.lookup_empty]
      exact Option.eq_none_iff_forall_ne_some.mpr fun val hv => hno ⟨col, val, hv⟩
    exact (hs row col val (hcell hl hv)).1
  · exact (hs row col val (hcell hl hv)).2.1
  · exact (hs row col val (hcell hl hv)).2.2

/-- A tablet with one cell of short strings fits. -/
theorem Tablet.fits_put_empty {row col val : Bytes} (hr : row.length < 2 ^ 32)
    (hc : col.length < 2 ^ 32) (hv : val.length < 2 ^ 32) :
    (Tablet.put ∅ row col val).Fits := by
  refine Tablet.fits_of_short (Tablet.noEmptyRow_put Tablet.noEmptyRow_empty _ _ _) ⟨?_, ?_⟩
    (Tablet.short_put Tablet.short_empty hr hc hv)
  · change (1 : ℕ) < 2 ^ 32
    decide
  · intro r innerMap hl
    rcases eq_or_ne r row with rfl | hne
    · rw [Tablet.put, Finmap.lookup_insert] at hl
      obtain rfl := Option.some.inj hl
      change (1 : ℕ) < 2 ^ 32
      decide
    · rw [Tablet.put, Finmap.lookup_insert_of_ne _ hne] at hl
      exact absurd hl (by simp)

/-! ### Reading back what was written -/

/-- What the reader does for one column. -/
def putColumn (row : Bytes) (table : Tablet) (e : Σ _ : Bytes, Bytes) : Tablet :=
  table.put row e.1 e.2

/-- What the reader does for one row. -/
def putRow (ord : IterOrder) (table : Tablet) (e : Σ _ : Bytes, Columns) : Tablet :=
  (ord.columns e.2).foldl (putColumn e.1) table

theorem deserializeColumns_serialize (row : Bytes) (l : List (Σ _ : Bytes, Bytes))
    (h : ∀ e ∈ l, e.1.length < 2 ^ 32 ∧ e.2.length < 2 ^ 32) (table : Tablet) (rest : Bytes) :
    deserializeColumns row l.length table (l.flatMap serializeColumn ++ rest) =
      (l.foldl (putColumn row) table, some rest) := by
  induction l generalizing table with
  | nil => rfl
  | cons e l ih =>
    obtain ⟨hcol, hval⟩ := h e List.mem_cons_self
    have hl : ∀ e ∈ l, e.1.length < 2 ^ 32 ∧ e.2.length < 2 ^ 32 :=
      fun e' he' => h e' (List.mem_cons_of_mem e he')
    have hbytes : (e :: l).flatMap serializeColumn ++ rest =
        writeString e.1 ++ (writeString e.2 ++ (l.flatMap serializeColumn ++ rest)) := by
      simp [serializeColumn]
    rw [hbytes, List.length_cons, deserializeColumns]
    simp only [readString_writeString hcol, readString_writeString hval]
    exact ih hl (table.put row e.1 e.2)

/-- What a row has to satisfy to be read back. -/
def RowFits (ord : IterOrder) (e : Σ _ : Bytes, Columns) : Prop :=
  e.1.length < 2 ^ 32 ∧ Columns.size e.2 < 2 ^ 32 ∧
    ∀ c ∈ ord.columns e.2, c.1.length < 2 ^ 32 ∧ c.2.length < 2 ^ 32

theorem length_columns (ord : IterOrder) (innerMap : Columns) :
    (ord.columns innerMap).length = Columns.size innerMap := by
  rw [Columns.size, ← ord.columns_entries innerMap, Multiset.coe_card]

theorem length_rows (ord : IterOrder) (table : Tablet) :
    (ord.rows table).length = table.size := by
  rw [Tablet.size, ← ord.rows_entries table, Multiset.coe_card]

theorem deserializeRows_serialize (ord : IterOrder) (l : List (Σ _ : Bytes, Columns))
    (h : ∀ e ∈ l, RowFits ord e) (table : Tablet) (rest : Bytes) :
    deserializeRows l.length table (l.flatMap (serializeRow ord) ++ rest) =
      (l.foldl (putRow ord) table, some rest) := by
  induction l generalizing table with
  | nil => rfl
  | cons e l ih =>
    obtain ⟨hrow, hsize, hcols⟩ := h e List.mem_cons_self
    have hl : ∀ e ∈ l, RowFits ord e := fun e' he' => h e' (List.mem_cons_of_mem e he')
    have hbytes : (e :: l).flatMap (serializeRow ord) ++ rest =
        writeString e.1 ++ (u32 (Columns.size e.2) ++ ((ord.columns e.2).flatMap serializeColumn ++
          (l.flatMap (serializeRow ord) ++ rest))) := by
      simp [serializeRow]
    rw [hbytes, List.length_cons, deserializeRows]
    simp only [readString_writeString hrow, readU32_u32_of_lt hsize]
    rw [← length_columns ord e.2, deserializeColumns_serialize e.1 _ hcols]
    exact ih hl (putRow ord table e)

/-- A row listed is a row of the tablet. -/
theorem mem_rows (ord : IterOrder) (table : Tablet) (row : Bytes) (innerMap : Columns) :
    (⟨row, innerMap⟩ : Σ _ : Bytes, Columns) ∈ ord.rows table ↔
      table.lookup row = some innerMap := by
  rw [← Multiset.mem_coe, ord.rows_entries, Finmap.lookup_eq_some_iff]

/-- A column listed is a column of the row. -/
theorem mem_columns (ord : IterOrder) (innerMap : Columns) (col val : Bytes) :
    (⟨col, val⟩ : Σ _ : Bytes, Bytes) ∈ ord.columns innerMap ↔
      innerMap.lookup col = some val := by
  rw [← Multiset.mem_coe, ord.columns_entries, Finmap.lookup_eq_some_iff]

theorem Tablet.Fits.rowFits {table : Tablet} (h : table.Fits) (ord : IterOrder) :
    ∀ e ∈ ord.rows table, RowFits ord e := by
  rintro ⟨row, innerMap⟩ he
  have hl := (mem_rows ord table row innerMap).mp he
  refine ⟨h.row row innerMap hl, h.columns row innerMap hl, ?_⟩
  rintro ⟨col, val⟩ hc
  have hcv := (mem_columns ord innerMap col val).mp hc
  exact ⟨h.column row innerMap hl col val hcv, h.value row innerMap hl col val hcv⟩

/-- Writing a cell of `P` into a table whose cells are within `P` keeps them
there. -/
theorem within_put {table : Tablet} {P : Store (Bytes × Bytes) Bytes} (h : Within table.cells P)
    {row col val : Bytes} (hP : P (row, col) = some val) :
    Within table.cells (table.put row col val).cells ∧ Within (table.put row col val).cells P := by
  rw [Tablet.cells_put]
  constructor
  · intro k v hk
    rcases eq_or_ne k (row, col) with rfl | hne
    · rw [Function.update_self, ← hP]
      exact h _ v hk
    · rw [Function.update_of_ne hne]
      exact hk
  · intro k v hk
    rcases eq_or_ne k (row, col) with rfl | hne
    · rw [Function.update_self] at hk
      rw [hP, hk]
    · rw [Function.update_of_ne hne] at hk
      exact h k v hk

theorem within_foldl_putColumn {P : Store (Bytes × Bytes) Bytes} (row : Bytes)
    (l : List (Σ _ : Bytes, Bytes)) (hl : ∀ e ∈ l, P (row, e.1) = some e.2) {table : Tablet}
    (h : Within table.cells P) :
    Within table.cells (l.foldl (putColumn row) table).cells ∧
      Within (l.foldl (putColumn row) table).cells P ∧
      ∀ e ∈ l, (l.foldl (putColumn row) table).cells (row, e.1) = some e.2 := by
  induction l generalizing table with
  | nil => exact ⟨Within.refl _, h, by simp⟩
  | cons e l ih =>
    obtain ⟨hput, hputP⟩ := within_put h (hl e List.mem_cons_self)
    obtain ⟨hle, hleP, hmem⟩ := ih (fun e' he' => hl e' (List.mem_cons_of_mem e he')) hputP
    refine ⟨hput.trans hle, hleP, fun e' he' => ?_⟩
    rcases List.mem_cons.mp he' with rfl | he'
    · refine hle _ _ ?_
      rw [Tablet.cells_put, Function.update_self]
    · exact hmem e' he'

theorem within_foldl_putRow {P : Store (Bytes × Bytes) Bytes} (ord : IterOrder)
    (l : List (Σ _ : Bytes, Columns))
    (hl : ∀ e ∈ l, ∀ c ∈ ord.columns e.2, P (e.1, c.1) = some c.2) {table : Tablet}
    (h : Within table.cells P) :
    Within table.cells (l.foldl (putRow ord) table).cells ∧
      Within (l.foldl (putRow ord) table).cells P ∧
      ∀ e ∈ l, ∀ c ∈ ord.columns e.2,
        (l.foldl (putRow ord) table).cells (e.1, c.1) = some c.2 := by
  induction l generalizing table with
  | nil => exact ⟨Within.refl _, h, by simp⟩
  | cons e l ih =>
    obtain ⟨hput, hputP, hin⟩ :=
      within_foldl_putColumn e.1 (ord.columns e.2) (hl e List.mem_cons_self) h
    obtain ⟨hle, hleP, hmem⟩ := ih (fun e' he' => hl e' (List.mem_cons_of_mem e he')) hputP
    refine ⟨hput.trans hle, hleP, fun e' he' c hc => ?_⟩
    rcases List.mem_cons.mp he' with rfl | he'
    · exact hle _ _ (hin c hc)
    · exact hmem e' he' c hc

/-- The rows of a tablet, written one after the other into an empty table, are
its cells. -/
theorem cells_foldl_putRow (ord : IterOrder) (table : Tablet) :
    ((ord.rows table).foldl (putRow ord) ∅).cells = table.cells := by
  have hrows : ∀ e ∈ ord.rows table, ∀ c ∈ ord.columns e.2, table.cells (e.1, c.1) = some c.2 := by
    rintro ⟨row, innerMap⟩ he ⟨col, val⟩ hc
    have hl := (mem_rows ord table row innerMap).mp he
    simpa [Tablet.cells, hl] using (mem_columns ord innerMap col val).mp hc
  have hnone : Within (Tablet.cells ∅) table.cells := fun k v hk => absurd hk (by simp)
  obtain ⟨-, hle, hin⟩ := within_foldl_putRow ord (ord.rows table) hrows hnone
  refine hle.antisymm fun k v hk => ?_
  obtain ⟨innerMap, hl, hv⟩ := Option.bind_eq_some_iff.mp hk
  exact hin ⟨k.1, innerMap⟩ ((mem_rows ord table _ _).mpr hl) ⟨k.2, v⟩
    ((mem_columns ord innerMap _ _).mpr hv)

theorem serializeTablet_ne_nil (ord : IterOrder) (table : Tablet) :
    serializeTablet ord table ≠ [] := by
  simp [serializeTablet, u32]

/-- **Reading a serialized tablet gives its cells back**, for every iteration
order of the two maps. -/
theorem deserializeTablet_serializeTablet (ord : IterOrder) {table : Tablet} (h : table.Fits) :
    (deserializeTablet ∅ (serializeTablet ord table)).1 = true ∧
      (deserializeTablet ∅ (serializeTablet ord table)).2.cells = table.cells := by
  have hread : readU32 (serializeTablet ord table) =
      some (table.size, (ord.rows table).flatMap (serializeRow ord)) :=
    readU32_u32_of_lt h.rows _
  have hrows := deserializeRows_serialize ord (ord.rows table) (h.rowFits ord) ∅ []
  rw [List.append_nil, length_rows] at hrows
  rw [deserializeTablet, if_neg (serializeTablet_ne_nil ord table), hread]
  simp only [hrows]
  exact ⟨rfl, cells_foldl_putRow ord table⟩

/-- **A tablet without empty rows comes back exactly.** -/
theorem deserializeTablet_exact (ord : IterOrder) {table : Tablet} (h : table.Fits)
    (hne : table.NoEmptyRow) :
    deserializeTablet ∅ (serializeTablet ord table) = (true, table) := by
  obtain ⟨hok, hcells⟩ := deserializeTablet_serializeTablet ord h
  have hback : (deserializeTablet ∅ (serializeTablet ord table)).2 = table :=
    Tablet.ext_cells (noEmptyRow_deserializeTablet Tablet.noEmptyRow_empty _) hne hcells
  exact Prod.ext hok hback

/-! ### Cut short

What has been read of an input is read of a longer one as well, with the rest left
over. A serialized tablet leaves nothing over, so no beginning of it can be read. -/

theorem readU32_extend {inp rest : Bytes} {n : ℕ} (h : readU32 inp = some (n, rest))
    (more : Bytes) : readU32 (inp ++ more) = some (n, rest ++ more) := by
  rw [readU32_eq_append h, List.append_assoc]
  exact readU32_u32_of_lt (readU32_lt h) _

theorem readString_extend {inp str rest : Bytes} (h : readString inp = some (str, rest))
    (more : Bytes) : readString (inp ++ more) = some (str, rest ++ more) := by
  rw [readString_eq_append h, List.append_assoc]
  exact readString_writeString (readString_lt h) _

theorem deserializeColumns_extend {row : Bytes} {n : ℕ} {table table' : Tablet}
    {inp rest : Bytes} (h : deserializeColumns row n table inp = (table', some rest))
    (more : Bytes) :
    deserializeColumns row n table (inp ++ more) = (table', some (rest ++ more)) := by
  induction n generalizing table inp with
  | zero =>
    obtain ⟨rfl, hrest⟩ := Prod.mk.inj h
    rw [deserializeColumns, Option.some.inj hrest]
  | succ n ih =>
    rw [deserializeColumns] at h
    rcases hcol : readString inp with _ | ⟨col, inp₁⟩
    · simp [hcol] at h
    rcases hval : readString inp₁ with _ | ⟨val, inp₂⟩
    · simp [hcol, hval] at h
    simp only [hcol, hval] at h
    rw [deserializeColumns]
    simp only [readString_extend hcol, readString_extend hval]
    exact ih h

theorem deserializeRows_extend {n : ℕ} {table table' : Tablet} {inp rest : Bytes}
    (h : deserializeRows n table inp = (table', some rest)) (more : Bytes) :
    deserializeRows n table (inp ++ more) = (table', some (rest ++ more)) := by
  induction n generalizing table inp with
  | zero =>
    obtain ⟨rfl, hrest⟩ := Prod.mk.inj h
    rw [deserializeRows, Option.some.inj hrest]
  | succ n ih =>
    rw [deserializeRows] at h
    rcases hrow : readString inp with _ | ⟨row, inp₁⟩
    · simp [hrow] at h
    rcases hsize : readU32 inp₁ with _ | ⟨innerSize, inp₂⟩
    · simp [hrow, hsize] at h
    rcases hcols : deserializeColumns row innerSize table inp₂ with ⟨table₁, _ | inp₃⟩
    · simp [hrow, hsize, hcols] at h
    simp only [hrow, hsize, hcols] at h
    rw [deserializeRows]
    simp only [readString_extend hrow, readU32_extend hsize, deserializeColumns_extend hcols]
    exact ih h

/-- **A truncated tablet is rejected**, and the whole of it is not, whatever table it is
read into. -/
theorem deserializeTablet_of_cut (ord : IterOrder) {table : Tablet} (h : table.Fits)
    (table₀ : Tablet) :
    (∀ buffer, buffer <+: serializeTablet ord table → buffer ≠ [] →
        buffer ≠ serializeTablet ord table → (deserializeTablet table₀ buffer).1 = false) ∧
      (deserializeTablet table₀ (serializeTablet ord table)).1 = true := by
  have hread : readU32 (serializeTablet ord table) =
      some (table.size, (ord.rows table).flatMap (serializeRow ord)) :=
    readU32_u32_of_lt h.rows _
  have hrows := deserializeRows_serialize ord (ord.rows table) (h.rowFits ord) table₀ []
  rw [List.append_nil, length_rows] at hrows
  constructor
  · rintro buffer ⟨more, hmore⟩ hne hcut
    rw [deserializeTablet, if_neg hne]
    rcases hsize : readU32 buffer with _ | ⟨outerSize, inp⟩
    · rfl
    rcases hin : deserializeRows outerSize table₀ inp with ⟨table', _ | rest⟩
    · simp [hin]
    · -- with the missing bytes behind it there would be something left over
      have hread' := readU32_extend hsize more
      rw [hmore, hread] at hread'
      obtain ⟨rfl, hinp⟩ := Prod.mk.inj (Option.some.inj hread')
      have hrows' := deserializeRows_extend hin more
      rw [← hinp, hrows] at hrows'
      have hnil : rest ++ more = [] := (Option.some.inj (Prod.mk.inj hrows').2).symm
      rw [(List.append_eq_nil_iff.mp hnil).2, List.append_nil] at hmore
      exact absurd hmore hcut
  · rw [deserializeTablet, if_neg (serializeTablet_ne_nil ord table), hread]
    simp only [hrows, Option.isSome_some]

/-- Three bytes of the count of rows are not enough. -/
theorem deserializeTablet_of_cut_count :
    (deserializeTablet ∅ ((serializeTablet default (Tablet.put ∅ [1] [2] [3])).take 3)).1 = false ∧
      (deserializeTablet ∅ (serializeTablet default (Tablet.put ∅ [1] [2] [3]))).1 = true := by
  have hfits : (Tablet.put ∅ [1] [2] [3]).Fits :=
    Tablet.fits_put_empty (by decide) (by decide) (by decide)
  obtain ⟨hcut, hall⟩ := deserializeTablet_of_cut default hfits ∅
  have hlen : 3 < (serializeTablet default (Tablet.put ∅ [1] [2] [3])).length := by
    rw [serializeTablet, List.length_append, length_u32]
    omega
  have htake : ((serializeTablet default (Tablet.put ∅ [1] [2] [3])).take 3).length = 3 :=
    List.length_take_of_le hlen.le
  refine ⟨hcut _ (List.take_prefix _ _) ?_ ?_, hall⟩
  · exact List.ne_nil_of_length_pos (by rw [htake]; decide)
  · intro he
    rw [he] at htake
    omega

/-! ### Beyond the format -/

/-- **A row of `2 ^ 32` columns, or a multiple of it, is lost**: the count of its
columns is written as zero, and the reader, which is content with that, makes an
empty table. -/
theorem deserializeTablet_many_columns (ord : IterOrder) {row : Bytes} (hrow : row.length < 2 ^ 32)
    {innerMap : Columns} (hsize : Columns.size innerMap % 2 ^ 32 = 0) :
    deserializeTablet ∅ (serializeTablet ord (Finmap.singleton row innerMap)) = (true, ∅) := by
  have hentries : (ord.rows (Finmap.singleton row innerMap) : Multiset (Σ _ : Bytes, Columns)) =
      {⟨row, innerMap⟩} := ord.rows_entries _
  have hrows : ord.rows (Finmap.singleton row innerMap) = [⟨row, innerMap⟩] :=
    Multiset.coe_eq_singleton.mp hentries
  have hcount : Tablet.size (Finmap.singleton row innerMap) = 1 := rfl
  have hbytes : serializeTablet ord (Finmap.singleton row innerMap) =
      u32 1 ++ (writeString row ++ (u32 (Columns.size innerMap) ++
        (ord.columns innerMap).flatMap serializeColumn)) := by
    simp [serializeTablet, serializeRow, hrows, hcount]
  have hzero : ∀ rest, readU32 (u32 (Columns.size innerMap) ++ rest) = some (0, rest) := by
    intro rest
    rw [readU32_u32, hsize]
  rw [deserializeTablet, if_neg (serializeTablet_ne_nil ord _), hbytes,
    readU32_u32_of_lt (by omega)]
  simp only [deserializeRows, readString_writeString hrow, hzero, deserializeColumns,
    Option.isSome_some]

/-- Column key number `i`, of eight bytes. -/
def columnKey (i : ℕ) : Bytes := u32 i ++ u32 (i / 2 ^ 32)

theorem columnKey_injective {i j : ℕ} (hi : i < 2 ^ 64) (hj : j < 2 ^ 64)
    (h : columnKey i = columnKey j) : i = j := by
  obtain ⟨hlow, hhigh⟩ := List.append_inj h (by simp)
  have h1 : i % 2 ^ 32 = j % 2 ^ 32 := by
    rw [← ofBytes_u32, ← ofBytes_u32, hlow]
  have h2 : i / 2 ^ 32 = j / 2 ^ 32 := u32_injective (by omega) (by omega) hhigh
  omega

/-- A row of `n` columns, all with an empty value. -/
def manyColumns : ℕ → Columns
  | 0 => ∅
  | n + 1 => (manyColumns n).insert (columnKey n) []

theorem mem_manyColumns {n : ℕ} {col : Bytes} (h : col ∈ manyColumns n) :
    ∃ i < n, col = columnKey i := by
  induction n with
  | zero => exact absurd h Finmap.notMem_empty
  | succ n ih =>
    rcases Finmap.mem_insert.mp h with rfl | h
    · exact ⟨n, by omega, rfl⟩
    · obtain ⟨i, hi, rfl⟩ := ih h
      exact ⟨i, by omega, rfl⟩

theorem size_manyColumns {n : ℕ} (hn : n ≤ 2 ^ 64) : Columns.size (manyColumns n) = n := by
  induction n with
  | zero => rfl
  | succ n ih =>
    have hnot : columnKey n ∉ manyColumns n := by
      intro hmem
      obtain ⟨i, hi, he⟩ := mem_manyColumns hmem
      have := columnKey_injective (by omega) (by omega) he
      omega
    rw [Columns.size, manyColumns, Finmap.entries_insert_of_notMem hnot, Multiset.card_cons]
    exact congrArg (· + 1) (ih (by omega))

/-- The tablet whose one row has `n` columns. -/
def wideTablet : ℕ → Tablet
  | 0 => ∅
  | n + 1 => (wideTablet n).put [] (columnKey n) []

theorem wideTablet_eq {n : ℕ} (hn : n ≠ 0) :
    wideTablet n = Finmap.singleton [] (manyColumns n) := by
  induction n with
  | zero => exact absurd rfl hn
  | succ n ih =>
    rcases eq_or_ne n 0 with rfl | hn'
    · rfl
    · rw [wideTablet, ih hn', Tablet.put, Finmap.lookup_singleton_eq, Option.getD_some,
        Finmap.insert_singleton_eq]
      rfl

theorem wideTablet_ne_empty {n : ℕ} (hn : n ≠ 0) : wideTablet n ≠ ∅ := by
  rw [wideTablet_eq hn]
  intro hc
  have hl := congrArg (Finmap.lookup []) hc
  rw [Finmap.lookup_singleton_eq, Finmap.lookup_empty] at hl
  exact absurd hl (by simp)

/-- The wide tablet with a multiple of `2 ^ 32` columns is lost. -/
theorem deserializeTablet_wideTablet (ord : IterOrder) {n : ℕ} (hn : n ≠ 0) (hle : n ≤ 2 ^ 64)
    (hmod : n % 2 ^ 32 = 0) :
    deserializeTablet ∅ (serializeTablet ord (wideTablet n)) = (true, ∅) := by
  rw [wideTablet_eq hn]
  refine deserializeTablet_many_columns ord (by decide) ?_
  rw [size_manyColumns hle]
  exact hmod

end PennCloud
