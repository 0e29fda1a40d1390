import PennCloud.Lib.Worklist
import PennCloud.Frontend.Storage.Ending
import PennCloud.Frontend.Storage.Listing
import PennCloud.Frontend.Storage.Subtrees

/-!
# Rows in good order

What the row of a user is supposed to look like. A live file has its chunks on its
list, under names that begin with its path, and their contents are there
(`PennCloud.Chunks`); a live folder has its live children on its listing, by their
paths and each of them once (`PennCloud.ListsChildren`). Nothing else is on the
lists, and so nothing that is not a path of valid names.

From a live item on, the listings then lead through a tree: `PennCloud.childrenOf` are
the live children of a folder, `Calls.Found` what is below an item, and
`PennCloud.isTree_childrenOf` says that it is finite and that nothing is met twice.
-/

namespace PennCloud

open Wire Calls Text

/-! ### Texts that begin with `ERR` -/

/-- What follows a character that is neither `E` nor `R` does not matter. -/
theorem isErr_append {x : UInt8} (hE : x ≠ 69) (hR : x ≠ 82) (v t : Bytes) :
    isErr (v ++ x :: t) = isErr v := by
  have hE' : (69 == x) = false := beq_eq_false_iff_ne.mpr hE.symm
  have hR' : (82 == x) = false := beq_eq_false_iff_ne.mpr hR.symm
  rcases v with _ | ⟨a, _ | ⟨b, _ | ⟨c, v⟩⟩⟩
  · simp [isErr, ascii, List.isPrefixOf, hE']
  · simp [isErr, ascii, List.isPrefixOf, hR']
  · simp [isErr, ascii, List.isPrefixOf, hR']
  · simp [isErr, ascii, List.isPrefixOf]

/-- A list begins with `ERR` when its first entry does. -/
theorem exists_entry_isErr (v : Bytes) : ∃ e ∈ splitStringStorage v, isErr e = isErr v := by
  by_cases hcomma : 44 ∈ v
  · obtain ⟨e, r, rfl, he⟩ := List.eq_append_cons_of_mem hcomma
    refine ⟨e, ?_, (isErr_append (by decide) (by decide) e r).symm⟩
    rw [splitStringStorage_append, splitStringStorage_of_notMem he]
    exact List.mem_append_left _ List.mem_cons_self
  · refine ⟨v, ?_, rfl⟩
    rw [splitStringStorage_of_notMem hcomma]
    exact List.mem_cons_self

/-! ### Files -/

/-- The name of a chunk. -/
def chunkName (p : Bytes) (i : ℕ) : Bytes := p ++ ascii "-" ++ decimal i

/-- The names of the first `n` chunks. -/
def chunkNames (p : Bytes) (n : ℕ) : List Bytes := (List.range n).map fun i => chunkName p (i + 1)

theorem length_chunkNames (p : Bytes) (n : ℕ) : (chunkNames p n).length = n := by
  simp [chunkNames]

theorem mem_chunkNames {p chunk : Bytes} {n : ℕ} :
    chunk ∈ chunkNames p n ↔ ∃ i < n, chunk = chunkName p (i + 1) := by
  simp only [chunkNames, List.mem_map, List.mem_range, eq_comm]

theorem chunkName_eq (p : Bytes) (i : ℕ) : chunkName p i = p ++ 45 :: decimal i := by
  simp [chunkName, ascii]

/-- The columns of a chunk belong to the file. -/
theorem columnOf_chunkName (p : Bytes) (i : ℕ) :
    ColumnOf p (chunkName p i ++ ascii "-content") := by
  rw [chunkName_eq, List.append_assoc]
  exact columnOf_dash p _

/-- The column of the content of a chunk. -/
def contentCol (p : Bytes) (i : ℕ) : Bytes := chunkName p i ++ ascii "-content"

theorem columnOf_contentCol (p : Bytes) (i : ℕ) : ColumnOf p (contentCol p i) :=
  columnOf_chunkName p i

theorem contentCol_inj {p : Bytes} {i j : ℕ} (h : contentCol p i = contentCol p j) : i = j := by
  rw [contentCol, contentCol, chunkName, chunkName] at h
  exact decimal_injective (List.append_cancel_left (List.append_cancel_right h))

theorem notMem_comma_chunkName {p : Bytes} (h : 44 ∉ p) (i : ℕ) : 44 ∉ chunkName p i := by
  rw [chunkName_eq]
  simp only [List.mem_append, List.mem_cons, not_or]
  refine ⟨h, by decide, fun hm => ?_⟩
  exact absurd (isDigit_of_mem_decimal hm) (by rw [IsDigit]; decide)

theorem chunkNames_ne_nil {p : Bytes} {n : ℕ} (hn : 0 < n) : chunkNames p n ≠ [] := by
  rw [← List.length_pos_iff, length_chunkNames]
  exact hn

/-- The list of chunks, read again. -/
theorem split_chunkNames {p : Bytes} (h : 44 ∉ p) {n : ℕ} (hn : 0 < n) :
    splitStringStorage (joinStorage (chunkNames p n)) = chunkNames p n := by
  refine List.splitOn_intercalate 44 (fun chunk hc => ?_) (chunkNames_ne_nil hn)
  obtain ⟨i, -, rfl⟩ := mem_chunkNames.mp hc
  exact notMem_comma_chunkName h (i + 1)

theorem joinStorage_chunkNames_ne_nil {p : Bytes} (h : 44 ∉ p) {n : ℕ} (hn : 0 < n) :
    joinStorage (chunkNames p n) ≠ [] := by
  intro hnil
  have hsplit := split_chunkNames h hn
  rw [hnil] at hsplit
  have hmem : [] ∈ chunkNames p n := hsplit ▸ List.mem_cons_self
  obtain ⟨i, -, heq⟩ := mem_chunkNames.mp hmem
  rw [chunkName_eq] at heq
  exact absurd heq (by simp)

theorem isErr_chunkNames {p : Bytes} (h : 44 ∉ p) {n : ℕ} (hn : 0 < n) :
    isErr (joinStorage (chunkNames p n)) = isErr p := by
  obtain ⟨e, he, herr⟩ := exists_entry_isErr (joinStorage (chunkNames p n))
  rw [split_chunkNames h hn] at he
  obtain ⟨i, -, rfl⟩ := mem_chunkNames.mp he
  rw [← herr, chunkName_eq, isErr_append (by decide) (by decide)]

/-- **A file and its chunks**: `n` of them are on the list, one at least, and their
contents are there. -/
structure Chunks (R : Row) (p : Bytes) (n : ℕ) : Prop where
  /-- There is a chunk. -/
  pos : 0 < n
  /-- The list. -/
  list : R (p ++ ascii "-metadata") = some (joinStorage (chunkNames p n))
  /-- The contents. -/
  contents : ∀ chunk ∈ chunkNames p n, R (chunk ++ ascii "-content") ≠ none

/-- The bytes of a file: the contents of the chunks on its list, one behind the other. -/
def bytesOf (R : Row) (p : Bytes) : Bytes :=
  match R (p ++ ascii "-metadata") with
  | none => []
  | some v => ((splitStringStorage v).map fun chunk =>
      (R (chunk ++ ascii "-content")).getD []).flatten

theorem Chunks.bytesOf_eq {R : Row} {p : Bytes} {n : ℕ} (h : Chunks R p n) (hp : 44 ∉ p) :
    bytesOf R p = ((List.range n).map fun i =>
      (R (chunkName p (i + 1) ++ ascii "-content")).getD []).flatten := by
  rw [bytesOf, h.list]
  dsimp only
  rw [split_chunkNames hp h.pos, chunkNames, List.map_map]
  rfl

/-- The chunks and the bytes are in the columns of the file. -/
theorem Chunks.congr {R R' : Row} {p : Bytes} {n : ℕ} (h : Chunks R p n)
    (heq : ∀ c, ColumnOf p c → R' c = R c) : Chunks R' p n := by
  refine ⟨h.pos, (heq _ (columnOf_metadata p)).trans h.list, fun chunk hchunk => ?_⟩
  obtain ⟨i, -, rfl⟩ := mem_chunkNames.mp hchunk
  rw [heq _ (columnOf_chunkName p (i + 1))]
  exact h.contents _ hchunk

theorem Chunks.bytesOf_congr {R R' : Row} {p : Bytes} {n : ℕ} (h : Chunks R p n) (hp : 44 ∉ p)
    (heq : ∀ c, ColumnOf p c → R' c = R c) : bytesOf R' p = bytesOf R p := by
  rw [h.bytesOf_eq hp, (h.congr heq).bytesOf_eq hp]
  refine congrArg List.flatten (List.map_congr_left fun i _ => ?_)
  rw [heq _ (columnOf_chunkName p (i + 1))]

/-- The list of chunks at a path, if there is one, names chunks of that path only. An empty
text is not such a list. -/
def ListsChunks (R : Row) (p : Bytes) : Prop :=
  ∀ v, R (p ++ ascii "-metadata") = some v →
    ∀ chunk ∈ splitStringStorage v, ∃ i, chunk = chunkName p i

theorem Chunks.listsChunks {R : Row} {p : Bytes} {n : ℕ} (h : Chunks R p n) (hp : 44 ∉ p) :
    ListsChunks R p := by
  intro v hv chunk hchunk
  obtain rfl := Option.some.inj (h.list.symm.trans hv)
  rw [split_chunkNames hp h.pos] at hchunk
  obtain ⟨i, -, rfl⟩ := mem_chunkNames.mp hchunk
  exact ⟨i + 1, rfl⟩

theorem ListsChunks.ownChunks {R : Row} {p : Bytes} (h : ListsChunks R p) : OwnChunks R p := by
  intro v hv _ _ chunk hchunk
  obtain ⟨i, rfl⟩ := h v hv chunk hchunk
  exact ⟨decimal i, chunkName_eq p i⟩

/-- It can be read. -/
theorem ListsChunks.not_isErr {R : Row} {p v : Bytes} (h : ListsChunks R p) (hp : isErr p = false)
    (hv : R (p ++ ascii "-metadata") = some v) : v ≠ [] ∧ isErr v = false := by
  constructor
  · rintro rfl
    obtain ⟨i, heq⟩ := h [] hv [] List.mem_cons_self
    rw [chunkName_eq] at heq
    exact absurd heq (by simp)
  · obtain ⟨e, he, herr⟩ := exists_entry_isErr v
    obtain ⟨i, rfl⟩ := h v hv e he
    rwa [← herr, chunkName_eq, isErr_append (by decide) (by decide)]

/-! ### Folders -/

/-- The entries of a listing, empty ones apart; none, when there is no listing. -/
def entriesOf (R : Row) (folder : Bytes) : List Bytes :=
  match R (metaCol folder) with
  | none => []
  | some v => (splitStringStorage v).filter fun e => e ≠ []

theorem mem_entriesOf {R : Row} {folder e : Bytes} : e ∈ entriesOf R folder ↔
    e ≠ [] ∧ ∃ v, R (metaCol folder) = some v ∧ e ∈ splitStringStorage v := by
  rw [entriesOf]
  rcases R (metaCol folder) with _ | v
  · simp
  · simp [and_comm]

/-- **A folder lists its children**: the paths of its live children are on the listing,
each of them once, and nothing else is. -/
structure ListsChildren (R : Row) (folder : Bytes) : Prop where
  /-- Each is on it once. -/
  nodup : (entriesOf R folder).Nodup
  /-- What is on it. -/
  mem_iff : ∀ e, e ∈ entriesOf R folder ↔
    ∃ n, isValidName n = true ∧ e = inFolder folder n ∧ Live R e

/-- The paths of live items do not begin with `ERR`. -/
def NoErrPaths (R : Row) : Prop := ∀ p, IsPath p → Live R p → isErr p = false

/-- A listing of children can be read. -/
theorem ListsChildren.not_isErr {R : Row} {folder v : Bytes} (h : ListsChildren R folder)
    (hfolder : IsFolderPath folder) (hnames : NoErrPaths R) (hv : R (metaCol folder) = some v) :
    isErr v = false := by
  obtain ⟨e, he, herr⟩ := exists_entry_isErr v
  rw [← herr]
  by_cases hnil : e = []
  · rw [hnil]
    decide
  · obtain ⟨n, hn, rfl, hlive⟩ := (h.mem_iff e).mp (mem_entriesOf.mpr ⟨hnil, v, hv, he⟩)
    exact hnames _ (IsPath.inFolder hfolder hn) hlive

/-! ### The tree below an item -/

/-- The live children of a folder. -/
def childrenOf (R : Row) (q : Bytes) : Set Bytes :=
  {x | R q = some kvFolder ∧ ∃ n, isValidName n = true ∧ x = q ++ 47 :: n ∧ Live R x}

section Tree

variable {R : Row} {a q x : Bytes}

/-- The children by their names. -/
theorem mem_childrenOf (hq : IsPath q) (hfolder : R q = some kvFolder) :
    x ∈ childrenOf R q ↔ ∃ n, isValidName n = true ∧ x = inFolder q n ∧ Live R x := by
  constructor
  · rintro ⟨-, n, hn, rfl, hlive⟩
    exact ⟨n, hn, (hq.inFolder_eq n).symm, hlive⟩
  · rintro ⟨n, hn, rfl, hlive⟩
    exact ⟨hfolder, n, hn, hq.inFolder_eq n, hlive⟩

theorem path_of_found (ha : IsPath a) (h : q ∈ Found (childrenOf R) a) : IsPath q := by
  induction (h : Relation.ReflTransGen (fun x y => y ∈ childrenOf R x) a q) with
  | refl => exact ha
  | tail _ hstep ih =>
    obtain ⟨-, n, hn, rfl, -⟩ := hstep
    exact ih.append hn

theorem under_of_found (h : q ∈ Found (childrenOf R) a) : Under a q := by
  induction (h : Relation.ReflTransGen (fun x y => y ∈ childrenOf R x) a q) with
  | refl => exact Under.refl a
  | tail _ hstep ih =>
    obtain ⟨-, n, -, rfl, -⟩ := hstep
    exact ih.trans (under_slash _ n)

theorem live_of_found (ha : Live R a) (h : q ∈ Found (childrenOf R) a) : Live R q := by
  induction (h : Relation.ReflTransGen (fun x y => y ∈ childrenOf R x) a q) with
  | refl => exact ha
  | tail _ hstep _ =>
    obtain ⟨-, n, -, -, hlive⟩ := hstep
    exact hlive

/-- **What is below a live item is a finite tree**, in a row with finitely many columns. -/
theorem isTree_childrenOf (ha : Live R a) (hfin : {c | R c ≠ none}.Finite) :
    IsTree (childrenOf R) a := by
  refine ⟨hfin.subset fun q hq => ?_, ?_, ?_⟩
  · rcases live_of_found ha hq with h | h <;> simp [h]
  · rintro q hq ⟨-, n, -, heq, -⟩
    obtain ⟨t, rfl, -⟩ := under_of_found hq
    have hlen := congrArg List.length heq
    simp only [List.length_append, List.length_cons] at hlen
    omega
  · rintro p - q - x ⟨-, n, hn, rfl, -⟩ ⟨-, m, hm, heq, -⟩
    have h := congrArg (beforeLast 47) heq
    rwa [beforeLast_append p (notMem_of_isValidName hn),
      beforeLast_append q (notMem_of_isValidName hm)] at h

end Tree

/-! ### A small row -/

/-- A folder with a file in it. -/
def noteInFolder : Tablet :=
  (((((Tablet.put ∅ annsRow (metaCol []) (ascii "a")).put annsRow (ascii "a") kvFolder).put annsRow
    (ascii "a-metadata") (ascii "a/x")).put annsRow (ascii "a/x") kvFile).put annsRow
      (ascii "a/x-metadata") (ascii "a/x-1")).put annsRow (ascii "a/x-1-content") (ascii "hi")

example : entriesOf (noteInFolder.row annsRow) [] = [ascii "a"] := by decide +kernel

theorem live_noteInFolder {p : Bytes} : Live (noteInFolder.row annsRow) p ↔
    p = ascii "a" ∨ p = ascii "a/x" := by
  constructor
  · intro h
    have hall : ∀ c ∈ noteInFolder.columns annsRow, (noteInFolder.row annsRow c = some kvFile ∨
        noteInFolder.row annsRow c = some kvFolder) → c = ascii "a" ∨ c = ascii "a/x" := by
      decide +kernel
    exact hall p (Tablet.mem_columns.mpr (h.elim (by simp [·]) (by simp [·]))) h
  · rintro (rfl | rfl)
    · exact Or.inr (by decide +kernel)
    · exact Or.inl (by decide +kernel)

theorem folder_noteInFolder {q : Bytes} (h : noteInFolder.row annsRow q = some kvFolder) :
    q = ascii "a" := by
  refine (live_noteInFolder.mp (Or.inr h)).resolve_right ?_
  rintro rfl
  exact absurd h (by decide +kernel)

theorem file_noteInFolder {q : Bytes} (h : noteInFolder.row annsRow q = some kvFile) :
    q = ascii "a/x" := by
  refine (live_noteInFolder.mp (Or.inl h)).resolve_left ?_
  rintro rfl
  exact absurd h (by decide +kernel)

theorem listsChildren_noteInFolder {q : Bytes} (h : Existing (noteInFolder.row annsRow) q) :
    ListsChildren (noteInFolder.row annsRow) q := by
  have hroot : entriesOf (noteInFolder.row annsRow) [] = [ascii "a"] := by decide +kernel
  have hfolder : entriesOf (noteInFolder.row annsRow) (ascii "a") = [ascii "a/x"] := by
    decide +kernel
  rcases h with rfl | h
  · refine ⟨hroot ▸ List.nodup_singleton _, fun e => ?_⟩
    rw [hroot, List.mem_singleton]
    constructor
    · rintro rfl
      exact ⟨ascii "a", by decide, rfl, live_noteInFolder.mpr (Or.inl rfl)⟩
    · rintro ⟨n, hn, rfl, hlive⟩
      refine (live_noteInFolder.mp hlive).resolve_right ?_
      rintro rfl
      exact absurd hn (by decide)
  · obtain rfl := folder_noteInFolder h
    refine ⟨hfolder ▸ List.nodup_singleton _, fun e => ?_⟩
    rw [hfolder, List.mem_singleton]
    constructor
    · rintro rfl
      exact ⟨ascii "x", by decide, by decide, live_noteInFolder.mpr (Or.inr rfl)⟩
    · rintro ⟨n, hn, rfl, hlive⟩
      exact (live_noteInFolder.mp hlive).resolve_left (inFolder_ne_folder (isValidName_ne_nil hn))

theorem chunks_noteInFolder {q : Bytes} (h : noteInFolder.row annsRow q = some kvFile) :
    Chunks (noteInFolder.row annsRow) q 1 := by
  obtain rfl := file_noteInFolder h
  exact ⟨Nat.one_pos, by decide +kernel, by decide +kernel⟩

theorem noErrPaths_noteInFolder : NoErrPaths (noteInFolder.row annsRow) := by
  intro p _ hp
  rcases live_noteInFolder.mp hp with rfl | rfl <;> decide

end PennCloud
