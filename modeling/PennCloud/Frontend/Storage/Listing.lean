import PennCloud.Frontend.Storage.Requests

/-!
# What a listing shows

`webStorageList` reads the listing of a folder, and shows every entry whose item
is there, under the last name of the entry and with the kind its marker says
(`PennCloud.mem_shown_iff`). Where the text that is read begins with `ERR` nothing
is shown, and the listing is made anew: a column that is not there is created, and
one that is there, with a first entry that happens to begin with these letters, is
emptied (`PennCloud.row_webStorageList`).
-/

namespace PennCloud

open Wire Calls Text

/-! ### Entries -/

section Entries

variable {v p e : Bytes}

/-- One entry more at the end. -/
theorem splitStringStorage_append (v p : Bytes) :
    splitStringStorage (v ++ 44 :: p) = splitStringStorage v ++ splitStringStorage p :=
  List.splitOn_append_cons_self v p

theorem splitStringStorage_ne_nil (v : Bytes) : splitStringStorage v ≠ [] :=
  List.splitOn_ne_nil 44 v

theorem splitStringStorage_of_notMem (h : 44 ∉ p) : splitStringStorage p = [p] :=
  List.splitOn_eq_singleton h

/-- The pieces of a list that was joined. -/
theorem mem_split_join {es : List Bytes} (h : ∀ e ∈ es, 44 ∉ e) (hne : es ≠ []) :
    e ∈ splitStringStorage (joinStorage es) ↔ e ∈ es := by
  rw [splitStringStorage, joinStorage, mem_splitOn_intercalate h]
  simp [hne]

theorem notMem_comma_of_mem (h : e ∈ splitStringStorage v) : 44 ∉ e := notMem_of_mem_splitOn h

theorem mem_split_append : e ∈ splitStringStorage (v ++ 44 :: p) ↔
    e ∈ splitStringStorage v ∨ e ∈ splitStringStorage p := by
  rw [splitStringStorage_append, List.mem_append]

/-- An entry at the end of a listing. -/
theorem joinStorage_concat {v p : Bytes} (hp : 44 ∉ p) :
    joinStorage (splitStringStorage v ++ [p]) = v ++ 44 :: p := by
  rw [← splitStringStorage_of_notMem hp, ← splitStringStorage_append]
  exact List.intercalate_splitOn 44

/-- A listing keeps its entries when one more is put on it. -/
theorem mem_withUpload_of_mem (name : Bytes) (he : e ∈ splitStringStorage v) (hne : e ≠ []) :
    e ∈ splitStringStorage (withUpload v name p) := by
  rw [withUpload]
  split_ifs with hv
  · have hnil : e = [] := by simpa [hv, splitStringStorage] using he
    exact absurd hnil hne
  · exact he
  · exact mem_split_append.mpr (Or.inl he)

/-- The path that is put on a listing is on it, unless the name is there already. -/
theorem exists_mem_withUpload {name : Bytes} (hp : 44 ∉ p) (hne : p ≠ [])
    (hname : name ∈ splitStringStorage v →
      ∃ e ∈ splitStringStorage v, e ≠ [] ∧ afterLast 47 e = afterLast 47 p) :
    ∃ e ∈ splitStringStorage (withUpload v name p), e ≠ [] ∧ afterLast 47 e = afterLast 47 p := by
  have hself : p ∈ splitStringStorage p := by
    rw [splitStringStorage_of_notMem hp]
    exact List.mem_cons_self
  rw [withUpload]
  split_ifs with hv hmem
  · exact ⟨p, hself, hne, rfl⟩
  · exact hname hmem
  · exact ⟨p, mem_split_append.mpr (Or.inr hself), hne, rfl⟩

theorem notMem_withUpload {x : UInt8} (name : Bytes) (hv : x ∉ v) (hp : x ∉ p) (hx : x ≠ 44) :
    x ∉ withUpload v name p := by
  rw [withUpload]
  split_ifs
  · exact hp
  · exact hv
  · simp [hv, hp, hx]

/-- The text of an error is no name. -/
theorem NotFound.notMem_split {text n : Bytes} (h : NotFound text) (hn : isValidName n = true) :
    n ∉ splitStringStorage text := by
  have hsplit : 44 ∉ text := by rcases h with rfl | rfl <;> decide
  rw [splitStringStorage_of_notMem hsplit, List.mem_singleton]
  rintro rfl
  rcases h with rfl | rfl <;> exact absurd hn (by decide)

/-- It can still be read. -/
theorem isErr_withUpload (name : Bytes) (hv : isErr v = false) (hp : v = [] → isErr p = false) :
    isErr (withUpload v name p) = false := by
  rw [withUpload]
  split_ifs with hnil
  · exact hp hnil
  · exact hv
  · exact isErr_append_comma hnil hv p

end Entries

/-! ### Items -/

/-- The marker of a kind of item. -/
def Kind.marker : Kind → Bytes
  | .file => kvFile
  | .folder => kvFolder

theorem live_iff {R : Row} {p : Bytes} : Live R p ↔ ∃ k : Kind, R p = some k.marker := by
  constructor
  · rintro (h | h)
    · exact ⟨.file, h⟩
    · exact ⟨.folder, h⟩
  · rintro ⟨_ | _, h⟩
    · exact Or.inl h
    · exact Or.inr h

/-- The kind of the item at a path. -/
def kindOf (R : Row) (p : Bytes) : Option Kind :=
  if R p = some kvFolder then some .folder else if R p = some kvFile then some .file else none

theorem kindOf_eq_some {R : Row} {p : Bytes} {k : Kind} :
    kindOf R p = some k ↔ R p = some k.marker := by
  have hne : kvFolder ≠ kvFile := by decide
  rw [kindOf]
  cases k with
  | file => split_ifs with h1 h2 <;> simp [Kind.marker, *]
  | folder => split_ifs with h1 h2 <;> simp [Kind.marker, hne.symm, *]

/-- The items that the entries of a folder lead to. -/
def itemsOf (R : Row) (folder : Bytes) (entries : List Bytes) : List (Bytes × Kind) :=
  entries.filterMap fun e => if e = [] then none
    else (kindOf R (inFolder folder (afterLast 47 e))).map fun k => (afterLast 47 e, k)

theorem mem_itemsOf {R : Row} {folder : Bytes} {entries : List Bytes} {n : Bytes} {k : Kind} :
    (n, k) ∈ itemsOf R folder entries ↔
      ∃ e ∈ entries, e ≠ [] ∧ afterLast 47 e = n ∧ R (inFolder folder n) = some k.marker := by
  rw [itemsOf, List.mem_filterMap]
  constructor
  · rintro ⟨e, he, h⟩
    split_ifs at h with hne
    · obtain ⟨k', hk', heq⟩ := Option.map_eq_some_iff.mp h
      obtain ⟨rfl, rfl⟩ := Prod.mk.inj heq
      exact ⟨e, he, hne, rfl, kindOf_eq_some.mp hk'⟩
  · rintro ⟨e, he, hne, rfl, hrow⟩
    refine ⟨e, he, ?_⟩
    rw [if_neg hne, kindOf_eq_some.mpr hrow]
    rfl

section Shown

variable {b : Bytes} {master : Master} {kvs : Tablet}

theorem run_listItems (folder : Bytes) (entries : List Bytes) :
    (listItems b folder entries).run (Call.exec master) kvs =
      (.ok (itemsOf (kvs.row b) folder entries), kvs) := by
  induction entries with
  | nil => rfl
  | cons e entries ih =>
    rw [listItems]
    by_cases he : e = []
    · rw [if_pos he, ih]
      simp [itemsOf, he]
    · rw [if_neg he, run_Get_bind, Prog.run_bind_of_ok _ ih]
      have hcons : itemsOf (kvs.row b) folder (e :: entries) =
          ((kindOf (kvs.row b) (inFolder folder (afterLast 47 e))).map fun k =>
            (afterLast 47 e, k)).toList ++ itemsOf (kvs.row b) folder entries := by
        simp only [itemsOf, List.filterMap_cons, if_neg he]
        rcases kindOf (kvs.row b) (inFolder folder (afterLast 47 e)) with _ | k <;> rfl
      rw [hcons, kindOf]
      simp only [Tablet.text_eq_iff isErr_kvFolder, Tablet.text_eq_iff isErr_kvFile]
      split_ifs <;> rfl

/-- The items that the page of a folder shows. -/
def shown (master : Master) (b : Bytes) (kvs : Tablet) (folder : Bytes) : List (Bytes × Kind) :=
  (((webStorageList b folder).run (Call.exec master) kvs).1.toOption.map Answer.shown).getD []

/-- The row that looking at a folder leaves. -/
def Row.reset (R : Row) (folder : Bytes) : Row := Function.update R (metaCol folder) (some [])

theorem run_resetListing (folder : Bytes) :
    ∃ s : Tablet, (resetListing b folder (kvs.text b (metaCol folder))).run (Call.exec master) kvs =
        (.ok (), s) ∧
      s.row b = if isErr (kvs.text b (metaCol folder)) then (kvs.row b).reset folder
        else kvs.row b := by
  rw [resetListing]
  split_ifs with h
  · exact ⟨kvs.put b (metaCol folder) [], rfl, Tablet.row_put []⟩
  · exact ⟨kvs, rfl, rfl⟩

/-- What the page is made of once the listing has been read. -/
theorem run_listPage (folder metadata : Bytes) :
    (listPage b folder metadata).run (Call.exec master) kvs =
      (.ok (.ok (.listing folder (if isErr metadata ∨ metadata = [] then none
        else some (itemsOf (kvs.row b) folder (splitStringStorage metadata))))), kvs) := by
  rw [listPage]
  split_ifs
  · rfl
  · rw [Prog.run_bind_of_ok _ (run_listItems folder _)]
    rfl

/-- **Looking at a folder** changes the listing only where it cannot be read. -/
theorem row_webStorageList (hup : master.Up) (folder : Bytes) :
    ((webStorageList b folder).run (Call.exec master) kvs).2.row b =
      if isErr (kvs.text b (metaCol folder)) then (kvs.row b).reset folder else kvs.row b := by
  obtain ⟨s, hs, hrow⟩ := @run_resetListing b master kvs folder
  rw [webStorageList, onWorker, run_lookup_bind, isErr_lookup hup, if_neg (by decide), run_Get_bind,
    Prog.run_bind_of_ok _ hs, ← hrow]
  split_ifs
  · rw [run_listPage]
  · rw [run_Get_bind]
    split_ifs
    · rfl
    · rw [run_listPage]

theorem shown_of_isErr (hup : master.Up) {folder : Bytes}
    (h : isErr (kvs.text b (metaCol folder)) = true) : shown master b kvs folder = [] := by
  obtain ⟨s, hs, -⟩ := @run_resetListing b master kvs folder
  rw [shown, webStorageList, onWorker, run_lookup_bind, isErr_lookup hup, if_neg (by decide),
    run_Get_bind, Prog.run_bind_of_ok _ hs]
  split_ifs
  · rw [run_listPage, h]
    rfl
  · rw [run_Get_bind]
    split_ifs
    · rfl
    · rw [run_listPage, h]
      rfl

/-- A page whose listing can be read shows what the entries lead to; an empty
listing leads nowhere. -/
theorem shown_listPage {folder metadata : Bytes} (h : isErr metadata = false) :
    ((((listPage b folder metadata).run (Call.exec master) kvs).1.toOption.map
      Answer.shown).getD []) = itemsOf (kvs.row b) folder (splitStringStorage metadata) := by
  rw [run_listPage]
  by_cases hnil : metadata = []
  · rw [if_pos (Or.inr hnil), hnil]
    rfl
  · rw [if_neg (by simp [h, hnil])]
    rfl

theorem shown_of_not_isErr (hup : master.Up) {folder : Bytes}
    (h : isErr (kvs.text b (metaCol folder)) = false) :
    shown master b kvs folder = if folder ≠ [] ∧ kvs.row b folder = some delKvFolder then []
      else itemsOf (kvs.row b) folder (splitStringStorage (kvs.text b (metaCol folder))) := by
  rw [shown, webStorageList, onWorker, run_lookup_bind, isErr_lookup hup, if_neg (by decide),
    run_Get_bind, resetListing, h, if_neg (by decide), Prog.pure_bind]
  by_cases hf : folder = []
  · rw [if_pos hf, shown_listPage h]
    exact (if_neg fun hand => hand.1 hf).symm
  · rw [if_neg hf, run_Get_bind]
    by_cases hdel : kvs.row b folder = some delKvFolder
    · rw [if_pos ((Tablet.text_eq_iff isErr_delKvFolder).mpr hdel)]
      exact (if_pos ⟨hf, hdel⟩).symm
    · rw [if_neg fun ht => hdel ((Tablet.text_eq_iff isErr_delKvFolder).mp ht), shown_listPage h]
      exact (if_neg fun hand => hdel hand.2).symm

/-- **What a listing shows**: the entries of a listing that can be read, as far as
the items are there. -/
theorem mem_shown_iff (hup : master.Up) {folder n : Bytes} {k : Kind} :
    (n, k) ∈ shown master b kvs folder ↔
      ∃ v, kvs.row b (metaCol folder) = some v ∧ isErr v = false ∧
        (folder = [] ∨ kvs.row b folder ≠ some delKvFolder) ∧
        ∃ e ∈ splitStringStorage v, e ≠ [] ∧ afterLast 47 e = n ∧
          kvs.row b (inFolder folder n) = some k.marker := by
  rcases herr : isErr (kvs.text b (metaCol folder)) with _ | _
  · have hrow := (Tablet.text_eq_iff herr).mp (rfl : kvs.text b (metaCol folder) = _)
    rw [shown_of_not_isErr hup herr, hrow]
    constructor
    · intro h
      split_ifs at h with hdel
      · exact absurd h List.not_mem_nil
      · refine ⟨_, rfl, herr, ?_, mem_itemsOf.mp h⟩
        by_cases hf : folder = []
        · exact Or.inl hf
        · exact Or.inr fun hd => hdel ⟨hf, hd⟩
    · rintro ⟨v, hv, -, hdel, hmem⟩
      obtain rfl := Option.some.inj hv
      rw [if_neg fun hand => hdel.elim hand.1 fun hd => hd hand.2]
      exact mem_itemsOf.mpr hmem
  · rw [shown_of_isErr hup herr]
    constructor
    · intro h
      exact absurd h List.not_mem_nil
    · rintro ⟨v, hv, hne, -⟩
      rw [Tablet.text_of_row hv, hne] at herr
      exact absurd herr (by decide)

end Shown

end PennCloud
