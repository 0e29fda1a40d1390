import PennCloud.Frontend.Storage.TreeSteps

/-!
# Requests on a tree of files and folders

What a request of the web storage does to a tree, and what its user is told, without a
word about columns: `PennCloud.StorageRequest.Does`. A file whose name is taken goes to
the first number that is free (`PennCloud.ItemName.tried`); the other requests are refused
when the name is taken.

* `PennCloud.StorageRequest.Fits` is what a request must find in the row for that: the
  folder it goes to with a listing, a path that can be used, data that come back.
* `PennCloud.Represents.displays`, `PennCloud.Represents.download`: what is shown of a tree
  that a row represents.
* `PennCloud.Represents.does` is the step: the row after a request that fits represents
  what the request makes of the tree.
-/

namespace PennCloud

open Wire Calls Text

/-! ### Names that are tried -/

/-- The name with a number, before its extension. -/
def ItemName.numbered (n : ItemName) (i : ℕ) : ItemName :=
  ⟨leafBase n.1 ++ parenthesized i ++ leafExt n.1, isValidName_leaf n.2 i⟩

/-- The names that are tried for a file: its own, and then that with the numbers from `1` on. -/
def ItemName.tried (n : ItemName) : ℕ → ItemName
  | 0 => n
  | i + 1 => n.numbered (i + 1)

/-- The paths that an upload tries. -/
def triedPath (path : Bytes) : ℕ → Bytes
  | 0 => path
  | i + 1 => variantPath path (i + 1)

/-- The names that it looks for on the listing. -/
def triedName (filename : Bytes) : ℕ → Bytes
  | 0 => filename
  | i + 1 => filename ++ parenthesized (i + 1)

section Names

variable {p q : List ItemName} {n : ItemName}

/-- A name has one dot at most, so the number of an upload goes where that of a move goes. -/
theorem variantPath_name (n : ItemName) (hdot : 46 ∈ n.1) (i : ℕ) :
    variantPath n.1 i = (n.numbered i).1 := by
  obtain ⟨n, hn⟩ := n
  rcases isValidName_iff.mp hn with h | ⟨a, c, rfl, ha, hc⟩
  · exact absurd hdot (notMem_of_isSegment h)
  · have hmem : 46 ∈ a ++ 46 :: c := hdot
    rw [variantPath_append (notMem_of_isSegment ha), ItemName.numbered]
    dsimp only
    rw [leafBase, leafExt, if_pos hmem, if_pos hmem, beforeLast_append a (notMem_of_isSegment hc),
      afterLast_append a (notMem_of_isSegment hc)]

theorem pathOf_tried (hdot : 46 ∈ n.1) (hfolder : 46 ∉ pathOf p) (i : ℕ) :
    pathOf (p ++ [n.tried i]) = triedPath (pathOf (p ++ [n])) i := by
  cases i with
  | zero => rfl
  | succ i =>
    rw [triedPath, pathOf_concat, pathOf_concat, variantPath_inFolder hfolder,
      variantPath_name n hdot]
    rfl

/-- A number changes nothing about how a path begins. -/
theorem isErr_tried (n : ItemName) (i : ℕ) :
    isErr (pathOf (p ++ [n.tried i])) = isErr (pathOf (p ++ [n])) := by
  cases i with
  | zero => rfl
  | succ i =>
    have hparen : parenthesized (i + 1) = 40 :: (decimal (i + 1) ++ ascii ")") := rfl
    rw [pathOf_concat, pathOf_concat, inFolder, inFolder]
    split_ifs
    · have hbase : isErr (leafBase n.1) = isErr n.1 := by
        rw [leafBase]
        split_ifs with hdot
        · conv_rhs => rw [← beforeLast_append_afterLast hdot]
          exact (isErr_append (by decide) (by decide) _ _).symm
        · rfl
      have hname : (n.tried (i + 1)).1 =
          leafBase n.1 ++ 40 :: (decimal (i + 1) ++ ascii ")" ++ leafExt n.1) := by
        simp [ItemName.tried, ItemName.numbered, hparen]
      rw [hname, isErr_append (by decide) (by decide), hbase]
    · rw [isErr_append (by decide) (by decide), isErr_append (by decide) (by decide)]

theorem tried_ne_root (h : p ++ [n] ≠ [rootName]) (i : ℕ) : p ++ [n.tried i] ≠ [rootName] := by
  cases i with
  | zero => exact h
  | succ i =>
    intro heq
    have hlast := (List.append_inj' (heq.trans (List.nil_append [rootName]).symm) rfl).2
    have hname : (n.numbered (i + 1)).1 = ascii "metadata" :=
      congrArg Subtype.val (List.cons.inj hlast).1
    have hmem : (40 : UInt8) ∈ (n.numbered (i + 1)).1 := by
      simp [ItemName.numbered, parenthesized, ascii]
    rw [hname] at hmem
    exact absurd hmem (by decide)

end Names

/-! ### Handlers with a worker -/

section Handlers

variable {b : Bytes} {master : Master} {kvs s : Tablet} {a : Answer}

theorem run_onWorker_up (hup : master.Up) (h : Handler Answer) :
    (onWorker b h).run (Call.exec master) kvs = h.run (Call.exec master) kvs := by
  rw [onWorker, run_lookup_bind, isErr_lookup hup, if_neg (by decide)]

/-- A handler that does what is asked, if it answers. -/
def Grants (p : Handler Answer) : Prop := p.Returns fun a => ∃ page, a = .ok page

theorem Grants.answer {p : Handler Answer} (hp : Grants p)
    (h : p.run (Call.exec master) kvs = (.ok a, s)) : ∃ page, a = .ok page :=
  hp.run (Call.exec master) (congrArg Prod.fst h)

theorem grants_storeUpload (folder filename path fileData : Bytes) :
    Grants (storeUpload b folder filename path fileData) :=
  .ask_bind fun _ => .then _ fun _ => .ask_bind fun _ => .ask_bind fun _ => ⟨_, rfl⟩

theorem grants_makeFolder (parent name path : Bytes) : Grants (makeFolder b parent name path) :=
  .ask_bind fun _ => .ask_bind fun _ => ⟨_, rfl⟩

/-- The path an upload is stored at is the first of those it tries that is not a file. -/
theorem run_webStorageUpload (hup : master.Up) {fuel : ℕ} {folder filename fileData : Bytes}
    (hname : isValidName filename = true)
    (h : (webStorageUpload b fuel folder filename fileData).run (Call.exec master) kvs =
      (.ok a, s)) :
    ∃ i, kvs.row b (triedPath (inFolder folder filename) i) ≠ some kvFile ∧
      (∀ j < i, kvs.row b (triedPath (inFolder folder filename) j) = some kvFile) ∧
      (storeUpload b folder (triedName filename i) (triedPath (inFolder folder filename) i)
        fileData).run (Call.exec master) kvs = (.ok a, s) := by
  rw [webStorageUpload, run_onWorker_up hup, if_neg (by simp [hname]), run_Get_bind] at h
  split_ifs at h with hfile
  · obtain ⟨i, u, hi, hrest⟩ := Prog.run_bind_ok _ h
    obtain ⟨rfl, -, hpos, hfree, htaken⟩ := run_freeUpload hi
    obtain ⟨i, rfl⟩ := Nat.exists_eq_add_of_le' hpos
    refine ⟨i + 1, hfree, fun j hj => ?_, hrest⟩
    cases j with
    | zero => exact (Tablet.text_eq_iff isErr_kvFile).mp hfile
    | succ j => exact htaken (j + 1) (by omega) hj
  · refine ⟨0, fun hrow => hfile ((Tablet.text_eq_iff isErr_kvFile).mpr hrow), fun j hj => ?_, h⟩
    exact absurd hj (Nat.not_lt_zero j)

section CreateFolder

variable {parent name : Bytes}

theorem run_createFolder_taken (hup : master.Up) (hname : isValidName name = true)
    (hlive : Live (kvs.row b) (inFolder parent name)) :
    ∃ page, (webStorageCreateFolder b parent name).run (Call.exec master) kvs =
      (.ok (.badRequest page), kvs) := by
  have htaken : kvs.text b (inFolder parent name) ≠ [] ∧
      isErr (kvs.text b (inFolder parent name)) = false ∧
        kvs.text b (inFolder parent name) ≠ delKvFolder := by
    rcases hlive with hrow | hrow <;> rw [Tablet.text_of_row hrow] <;> decide
  rw [webStorageCreateFolder, run_onWorker_up hup, if_neg (by simp [hname]), run_Get_bind,
    if_pos htaken]
  exact ⟨_, rfl⟩

theorem run_createFolder_granted (hup : master.Up) (hname : isValidName name = true)
    (hfree : kvs.row b (inFolder parent name) = none ∨
      kvs.row b (inFolder parent name) = some delKvFolder)
    (h : (webStorageCreateFolder b parent name).run (Call.exec master) kvs = (.ok a, s)) :
    ∃ page, a = .ok page := by
  have hguard : ¬(kvs.text b (inFolder parent name) ≠ [] ∧
      isErr (kvs.text b (inFolder parent name)) = false ∧
        kvs.text b (inFolder parent name) ≠ delKvFolder) := by
    rintro ⟨-, herr, hne⟩
    rcases hfree with hrow | hrow
    · rw [Tablet.isErr_of_none hrow] at herr
      exact absurd herr (by decide)
    · exact hne (Tablet.text_of_row hrow)
  rw [webStorageCreateFolder, run_onWorker_up hup, if_neg (by simp [hname]), run_Get_bind,
    if_neg hguard] at h
  refine Grants.answer (.ask_bind fun _ => .ite (fun _ => grants_makeFolder _ _ _) fun _ => ?_) h
  exact .ask_bind fun _ => grants_makeFolder _ _ _

end CreateFolder

theorem run_delete_granted (hup : master.Up) {fuel : ℕ} {path : Bytes}
    (h : (webStorageDelete b fuel path).run (Call.exec master) kvs = (.ok a, s)) :
    ∃ page, a = .ok page := by
  rw [webStorageDelete, run_onWorker_up hup] at h
  refine Grants.answer (.ask_bind fun _ => .ask_bind fun _ => .then _ fun _ => ?_) h
  exact .ask_bind fun _ => ⟨_, rfl⟩

section RenameFile

variable {folder oldName newName : Bytes}

theorem run_renameFile_taken (hup : master.Up) (hname : isValidName newName = true)
    (hfile : kvs.row b (inFolder folder (ensureSameExtension oldName newName)) = some kvFile) :
    ∃ page, (webStorageRenameFile b folder oldName newName).run (Call.exec master) kvs =
      (.ok (.badRequest page), kvs) := by
  rw [webStorageRenameFile, run_onWorker_up hup, if_neg (by simp [hname]), run_Get_bind,
    if_pos (Tablet.text_of_row hfile)]
  exact ⟨_, rfl⟩

theorem run_renameFile_granted (hup : master.Up) (hname : isValidName newName = true)
    (hfree : kvs.row b (inFolder folder (ensureSameExtension oldName newName)) ≠ some kvFile)
    (h : (webStorageRenameFile b folder oldName newName).run (Call.exec master) kvs = (.ok a, s)) :
    ∃ page, a = .ok page := by
  rw [webStorageRenameFile, run_onWorker_up hup, if_neg (by simp [hname]), run_Get_bind,
    if_neg fun ht => hfree ((Tablet.text_eq_iff isErr_kvFile).mp ht)] at h
  refine Grants.answer (.then _ fun _ => .ask_bind fun _ => ?_) h
  exact .ask_bind fun _ => ⟨_, rfl⟩

end RenameFile

section RenameFolder

variable {fuel : ℕ} {path newName : Bytes}

theorem run_renameFolder_taken (hup : master.Up) (hname : isValidName newName = true)
    (hfolder : kvs.row b (inFolder (beforeLast 47 path) newName) = some kvFolder) :
    ∃ page, (webStorageRenameFolder b fuel path newName).run (Call.exec master) kvs =
      (.ok (.badRequest page), kvs) := by
  rw [webStorageRenameFolder, run_onWorker_up hup, if_neg (by simp [hname]), run_Get_bind,
    if_pos (Tablet.text_of_row hfolder)]
  exact ⟨_, rfl⟩

theorem run_renameFolder_granted (hup : master.Up) (hname : isValidName newName = true)
    (hfree : kvs.row b (inFolder (beforeLast 47 path) newName) ≠ some kvFolder)
    (h : (webStorageRenameFolder b fuel path newName).run (Call.exec master) kvs = (.ok a, s)) :
    ∃ page, a = .ok page := by
  rw [webStorageRenameFolder, run_onWorker_up hup, if_neg (by simp [hname]), run_Get_bind,
    if_neg fun ht => hfree ((Tablet.text_eq_iff isErr_kvFolder).mp ht)] at h
  refine Grants.answer (.ask_bind fun _ => .ask_bind fun _ => .then _ fun _ => ?_) h
  exact ⟨_, rfl⟩

end RenameFolder

/-- The names a file that is moved tries, and the first of them where no item is. -/
theorem run_freeTarget_first {q : List ItemName} {n : ItemName} {fuel i : ℕ} {v : Bytes}
    (h : (freeTarget b (pathOf q) (leafBase n.1) (leafExt n.1) fuel (i + 1)
      (pathOf (q ++ [n.tried i]))).run (Call.exec master) kvs = (.ok v, s)) :
    ∃ j, i ≤ j ∧ v = pathOf (q ++ [n.tried j]) ∧ ¬Live (kvs.row b) v ∧
      ∀ k, i ≤ k → k < j → Live (kvs.row b) (pathOf (q ++ [n.tried k])) := by
  induction fuel generalizing i with
  | zero => exact absurd (Prod.mk.inj h).1 (by simp)
  | succ fuel ih =>
    have hmarker : kvs.text b (pathOf (q ++ [n.tried i])) = kvFile ∨
        kvs.text b (pathOf (q ++ [n.tried i])) = kvFolder ↔
          Live (kvs.row b) (pathOf (q ++ [n.tried i])) := by
      rw [Tablet.text_eq_iff isErr_kvFile, Tablet.text_eq_iff isErr_kvFolder, Live]
    rw [freeTarget, run_Get_bind, if_congr hmarker rfl rfl] at h
    split_ifs at h with hlive
    · have hnext : inFolder (pathOf q) (leafBase n.1 ++ parenthesized (i + 1) ++ leafExt n.1) =
          pathOf (q ++ [n.tried (i + 1)]) := (pathOf_concat q (n.tried (i + 1))).symm
      rw [hnext] at h
      obtain ⟨j, hij, hv, hfree, htaken⟩ := ih h
      refine ⟨j, by omega, hv, hfree, fun k hk hkj => ?_⟩
      rcases Nat.eq_or_lt_of_le hk with rfl | hk
      · exact hlive
      · exact htaken k hk hkj
    · obtain ⟨hv, -⟩ := Prod.mk.inj h
      obtain rfl := Except.ok.inj hv
      exact ⟨i, le_rfl, rfl, hlive, fun k hk hki => absurd hki (by omega)⟩

theorem run_moveFile_granted (hup : master.Up) {fuel : ℕ} {source filename target : Bytes}
    (hname : isValidName filename = true)
    (h : (webStorageMoveFile b fuel source filename target).run (Call.exec master) kvs =
      (.ok a, s)) : ∃ page, a = .ok page := by
  rw [webStorageMoveFile, run_onWorker_up hup, if_neg (isValidName_ne_nil hname)] at h
  refine Grants.answer (.then _ fun _ => ?_) h
  exact ⟨_, rfl⟩

theorem run_moveFolder_granted {fuel : ℕ} {source target : Bytes}
    (hmay : MayMove master kvs b source target)
    (h : (webStorageMoveFolder b fuel source target).run (Call.exec master) kvs = (.ok a, s)) :
    ∃ page, a = .ok page := by
  rw [run_webStorageMoveFolder hmay] at h
  refine Grants.answer (.then _ fun _ => ?_) h
  exact ⟨_, rfl⟩

theorem run_moveFolder_stays (hup : master.Up) {source target : Bytes}
    (hstays : ¬MayMove master kvs b source target) (fuel : ℕ) :
    ∃ page, (webStorageMoveFolder b fuel source target).run (Call.exec master) kvs =
      (.ok (.badRequest page), kvs) := by
  rw [webStorageMoveFolder, run_onWorker_up hup]
  by_cases hguard : target = source ∨ (source ++ [47]).isPrefixOf target
  · rw [if_pos hguard]
    exact ⟨_, rfl⟩
  rw [if_neg hguard, run_Get_bind]
  dsimp only
  by_cases hmem : afterLast 47 source ∈ (splitStringStorage
      (if isErr (kvs.text b (metaCol target)) then [] else kvs.text b (metaCol target))).map
        (afterLast 47)
  · rw [if_pos hmem]
    exact ⟨_, rfl⟩
  rw [if_neg hmem]
  by_cases hnil : source = []
  · rw [if_pos hnil]
    exact ⟨_, rfl⟩
  · exact absurd ⟨isErr_lookup hup b, hguard, hmem, hnil⟩ hstays

end Handlers

/-! ### Pages -/

/-- A page shows what is in a folder, each item once. -/
structure Displays (items : List (Bytes × Kind)) (t : FileTree ItemName Bytes)
    (p : List ItemName) : Prop where
  /-- Each once. -/
  nodup : (items.map Prod.fst).Nodup
  /-- What is in the folder. -/
  mem_iff : ∀ n k, (n, k) ∈ items ↔
    ∃ m : ItemName, m.1 = n ∧ (t.item (p ++ [m])).map FileItem.kind = some k

section Pages

variable {R : Row} {t : FileTree ItemName Bytes} {p : List ItemName} {n : ItemName}
  {b : Bytes} {master : Master} {kvs : Tablet}

theorem Shows.kind_iff {v : Bytes} {x : Option (FileItem Bytes)} (h : Shows R v x) {k : Kind} :
    R v = some k.marker ↔ x.map FileItem.kind = some k := by
  cases k with
  | file =>
    refine h.file_iff.trans ?_
    rcases x with _ | _ | d <;> simp [FileItem.kind]
  | folder =>
    refine h.folder_iff.trans ?_
    rcases x with _ | _ | d <;> simp [FileItem.kind]

/-- Empty entries of a listing are passed over. -/
theorem itemsOf_filter (R : Row) (folder : Bytes) (es : List Bytes) :
    itemsOf R folder (es.filter fun e => e ≠ []) = itemsOf R folder es := by
  rw [itemsOf, itemsOf, List.filterMap_filter]
  refine List.filterMap_congr fun e _ => ?_
  by_cases he : e = []
  · simp [he]
  · simp [he]

theorem Represents.displays_itemsOf (h : Represents R t) {es : List Bytes} (hes : Lists es t p) :
    Displays (itemsOf R (pathOf p) es) t p := by
  constructor
  · rw [itemsOf, List.Nodup, List.pairwise_map, List.pairwise_filterMap]
    refine hes.nodup.imp_of_mem fun he he' hne x hx x' hx' heq => hne ?_
    obtain ⟨m, rfl, -⟩ := (hes.mem_iff _).mp he
    obtain ⟨m', rfl, -⟩ := (hes.mem_iff _).mp he'
    rw [if_neg (pathOf_ne_nil (by simp))] at hx hx'
    obtain ⟨k, -, rfl⟩ := Option.map_eq_some_iff.mp hx
    obtain ⟨k', -, rfl⟩ := Option.map_eq_some_iff.mp hx'
    have hname : m.1 = m'.1 := by
      have hlast : afterLast 47 (pathOf (p ++ [m])) = afterLast 47 (pathOf (p ++ [m'])) := heq
      rwa [pathOf_concat, pathOf_concat, afterLast_inFolder m.2, afterLast_inFolder m'.2] at hlast
    rw [Subtype.ext hname]
  · intro n k
    rw [mem_itemsOf]
    constructor
    · rintro ⟨e, he, -, rfl, hrow⟩
      obtain ⟨m, rfl, -⟩ := (hes.mem_iff e).mp he
      have hname : afterLast 47 (pathOf (p ++ [m])) = m.1 := by
        rw [pathOf_concat, afterLast_inFolder m.2]
      rw [hname, ← pathOf_concat] at hrow
      exact ⟨m, hname.symm, (h.items _ (by simp)).kind_iff.mp hrow⟩
    · rintro ⟨m, rfl, hm⟩
      have hitem : t.item (p ++ [m]) ≠ none := fun hnone => by simp [hnone] at hm
      refine ⟨pathOf (p ++ [m]), (hes.mem_iff _).mpr ⟨m, rfl, hitem⟩, pathOf_ne_nil (by simp),
        ?_, ?_⟩
      · rw [pathOf_concat, afterLast_inFolder m.2]
      · rw [← pathOf_concat]
        exact (h.items _ (by simp)).kind_iff.mpr hm

/-- **The page of a folder** shows what is in it. -/
theorem Represents.displays (h : Represents (kvs.row b) t) (hup : master.Up)
    (hp : t.item p = some .folder) : Displays (shown master b kvs (pathOf p)) t p := by
  have hlists := h.listings p hp
  rcases hw : kvs.row b (metaCol (pathOf p)) with _ | w
  · -- without a listing the folder is empty
    rw [shown_of_isErr hup (Tablet.isErr_of_none hw)]
    rw [entriesOf, hw] at hlists
    exact h.displays_itemsOf hlists
  · rw [entriesOf_of_some hw] at hlists
    rw [shown_of_not_isErr hup (by rw [Tablet.text_of_row hw]; exact h.not_isErr hp hw),
      Tablet.text_of_row hw, if_neg, ← itemsOf_filter]
    · exact h.displays_itemsOf hlists
    · rintro ⟨hne, hdel⟩
      have hmark : kvs.row b (pathOf p) = some kvFolder :=
        (h.existing_iff.mpr hp).resolve_left hne
      rw [hdel] at hmark
      exact absurd hmark (by decide)

/-- **The download of a file** is its bytes. -/
theorem Represents.download (h : Represents (kvs.row b) t) (hup : master.Up) {d : Bytes}
    (hfile : t.item (p ++ [n]) = some (.file d)) :
    ((webStorageDownload b (pathOf p) n.1).run (Call.exec master) kvs).1 =
      .ok (.download n.1 d) := by
  have hpath : IsPath (pathOf (p ++ [n])) := isPath_pathOf (by simp)
  have hshows := h.items (p ++ [n]) (by simp)
  rw [hfile] at hshows
  obtain ⟨-, ⟨k, hch⟩, rfl, hne⟩ := hshows
  refine (download_eq_iff (isErr_lookup hup b) (pathOf_concat p n).symm).mpr ⟨?_, hne⟩
  have herr : isErr (joinStorage (chunkNames (pathOf (p ++ [n])) k)) = false :=
    (isErr_chunkNames hpath.notMem_comma hch.pos).trans (h.names _ (by simp) (by simp [hfile]))
  rw [bytesRead, bytesOf, hch.list, Tablet.text_of_row hch.list]
  refine congrArg List.flatten (List.map_congr_left fun chunk hmem => ?_)
  rw [split_chunkNames hpath.notMem_comma hch.pos] at hmem
  obtain ⟨v, hv⟩ := Option.ne_none_iff_exists'.mp (hch.contents chunk hmem)
  rw [Tablet.text_of_row hv, hv]
  rfl

end Pages

/-! ### What a request does -/

namespace StorageRequest

/-- **What a request does to a tree of files and folders**, and what the user is told. -/
inductive Does (t : FileTree ItemName Bytes) :
    StorageRequest → Answer → FileTree ItemName Bytes → Prop
  /-- A folder is shown. -/
  | list {p : List ItemName} {a : Answer} (hp : t.item p = some .folder)
    (h : Displays a.shown t p) : Does t (.list (pathOf p)) a t
  /-- A file is put where its name is free, or at the first number that is. -/
  | upload {p : List ItemName} {n m : ItemName} {data : Bytes} {page : Page}
    (hfree : t.FirstFree p n.tried m) (hc : t.CanCreate p m) :
    Does t (.upload (pathOf p) n.1 data) (.ok page) (t.create p m (.file data) hc)
  /-- A folder is created, -/
  | createFolder {p : List ItemName} {n : ItemName} {page : Page} (hc : t.CanCreate p n) :
    Does t (.createFolder (pathOf p) n.1) (.ok page) (t.create p n .folder hc)
  /-- unless the name is taken. -/
  | createRefused {p : List ItemName} {n : ItemName} {text : Bytes}
    (h : t.item (p ++ [n]) ≠ none) :
    Does t (.createFolder (pathOf p) n.1) (.badRequest text) t
  /-- An item is deleted, with everything below it. -/
  | delete {p : List ItemName} {n : ItemName} {page : Page} (h : t.item (p ++ [n]) ≠ none) :
    Does t (.delete (pathOf (p ++ [n]))) (.ok page) (t.remove (p ++ [n]) (by simp))
  /-- A file is renamed, and keeps its extension, -/
  | renameFile {p : List ItemName} {o n : ItemName} {new d : Bytes} {page : Page}
    (hn : n.1 = ensureSameExtension o.1 new) (hfile : t.item (p ++ [o]) = some (.file d))
    (hm : t.CanMove (p ++ [o]) p n) :
    Does t (.renameFile (pathOf p) o.1 new) (.ok page) (t.move (p ++ [o]) p n hm)
  /-- unless there is such a file. -/
  | renameFileRefused {p : List ItemName} {o n : ItemName} {new d text : Bytes}
    (hn : n.1 = ensureSameExtension o.1 new) (h : t.item (p ++ [n]) = some (.file d)) :
    Does t (.renameFile (pathOf p) o.1 new) (.badRequest text) t
  /-- A folder is renamed, -/
  | renameFolder {p : List ItemName} {m n : ItemName} {page : Page}
    (hfolder : t.item (p ++ [m]) = some .folder) (hm : t.CanMove (p ++ [m]) p n) :
    Does t (.renameFolder (pathOf (p ++ [m])) n.1) (.ok page) (t.move (p ++ [m]) p n hm)
  /-- unless there is such a folder. -/
  | renameFolderRefused {p : List ItemName} {m n : ItemName} {text : Bytes}
    (h : t.item (p ++ [n]) = some .folder) :
    Does t (.renameFolder (pathOf (p ++ [m])) n.1) (.badRequest text) t
  /-- A file is moved to where its name is free, or to the first number that is. -/
  | moveFile {p q : List ItemName} {m n : ItemName} {d : Bytes} {page : Page}
    (hfile : t.item (p ++ [m]) = some (.file d)) (hfree : t.FirstFree q m.tried n)
    (hm : t.CanMove (p ++ [m]) q n) :
    Does t (.moveFile (pathOf p) m.1 (pathOf q)) (.ok page) (t.move (p ++ [m]) q n hm)
  /-- A folder is moved, -/
  | moveFolder {p q : List ItemName} {m : ItemName} {page : Page}
    (hfolder : t.item (p ++ [m]) = some .folder) (hm : t.CanMove (p ++ [m]) q m) :
    Does t (.moveFolder (pathOf (p ++ [m])) (pathOf q)) (.ok page) (t.move (p ++ [m]) q m hm)
  /-- unless its name is taken there, or the target is in it. -/
  | moveFolderRefused {p q : List ItemName} {m : ItemName} {text : Bytes}
    (hq : t.item q = some .folder) (h : ¬t.CanMove (p ++ [m]) q m) :
    Does t (.moveFolder (pathOf (p ++ [m])) (pathOf q)) (.badRequest text) t

/-- **What a request must find** to do that. -/
def Fits (R : Row) : StorageRequest → Prop
  | .list folder => Existing R folder
  | .upload folder filename fileData => Existing R folder ∧ R (metaCol folder) ≠ none ∧
    fileData ≠ [] ∧ fileData.length < 2 ^ 31 ∧
    (R (inFolder folder filename) = some kvFile → 46 ∈ filename ∧ 46 ∉ folder) ∧
    ∀ i, R (triedPath (inFolder folder filename) i) ≠ some kvFile →
      (∀ j < i, R (triedPath (inFolder folder filename) j) = some kvFile) →
        CanHold R (triedPath (inFolder folder filename) i) ∧
        (SaysNotFound (triedPath (inFolder folder filename) i) → fileData.length ≤ chunkSize) ∧
        (folder = [] → ¬Live R (triedName filename i))
  | .createFolder parent name => Existing R parent ∧ (Live R (inFolder parent name) ∨
    R (metaCol parent) ≠ none ∧ CanHold R (inFolder parent name) ∧
      (R (inFolder parent name) = none ∨ R (inFolder parent name) = some delKvFolder))
  | .delete path => Live R path ∧ ∀ w, R (metaCol (beforeLast 47 path)) = some w →
    ∀ e ∈ splitStringStorage w, afterLast 47 path <:+: e → e = path
  | .renameFile folder oldName newName => R (inFolder folder oldName) = some kvFile ∧
    (R (inFolder folder (ensureSameExtension oldName newName)) = some kvFile ∨
      CanHold R (inFolder folder (ensureSameExtension oldName newName)))
  | .renameFolder path newName => R path = some kvFolder ∧
    (R (inFolder (beforeLast 47 path) newName) = some kvFolder ∨
      R (path ++ ascii "-metadata") = some [] ∧ CanHold R (inFolder (beforeLast 47 path) newName))
  | .moveFile source filename target => R (inFolder source filename) = some kvFile ∧
    Existing R target ∧ R (metaCol target) ≠ none ∧ inFolder target filename ≠ ascii "metadata" ∧
    isErr (inFolder target filename) = false
  | .moveFolder source target => R source = some kvFolder ∧ Existing R target ∧
    inFolder target (afterLast 47 source) ≠ ascii "metadata" ∧
    isErr (inFolder target (afterLast 47 source)) = false

end StorageRequest

/-! ### One request -/

/-- A path is a name in a folder. -/
theorem IsPath.exists_concat {v : Bytes} (hv : IsPath v) :
    ∃ p n, v = pathOf (p ++ [n]) := by
  obtain ⟨p, hp, rfl⟩ := hv.exists_pathOf
  obtain ⟨p, n, rfl⟩ := (List.eq_nil_or_concat' p).resolve_left hp
  exact ⟨p, n, rfl⟩

section Steps

variable {b : Bytes} {master : Master} {kvs s : Tablet} {t : FileTree ItemName Bytes}
  {p q : List ItemName} {m n : ItemName} {a : Answer} {fuel : ℕ}

/-- A folder with nothing on its listing is a leaf. -/
theorem Represents.leaf_of_entriesOf (h : Represents (kvs.row b) t)
    (hfolder : t.item p = some .folder) (hempty : entriesOf (kvs.row b) (pathOf p) = []) :
    ∀ u, u ≠ [] → t.item (p ++ u) = none := by
  intro u hu
  obtain ⟨k, u, rfl⟩ := List.exists_cons_of_ne_nil hu
  by_contra hne
  have hchild : t.item (p ++ [k]) ≠ none := by
    rw [List.append_cons] at hne
    exact fun hnone => hne (t.item_eq_none_of_prefix hnone (List.prefix_append _ u))
  have hmem := ((h.listings p hfolder).mem_iff _).mpr ⟨k, rfl, hchild⟩
  rw [hempty] at hmem
  exact absurd hmem List.not_mem_nil

/-- What a new path needs, but for the names that are tried. -/
theorem Represents.canHold_tried (ht : Represents (kvs.row b) t) (hplain : p ++ [n] ≠ [rootName])
    (herr : isErr (pathOf (p ++ [n])) = false) {i : ℕ}
    (hfree : t.item (p ++ [n.tried i]) = none) :
    CanHold (kvs.row b) (pathOf (p ++ [n.tried i])) := by
  refine ⟨fun hlive => ?_, fun heq => ?_, (isErr_tried n i).trans herr⟩
  · exact (ht.live_iff (by simp)).mp hlive hfree
  · exact tried_ne_root hplain i (pathOf_eq_metadata.mp heq)

/-- The guards of a request that moves a folder ask whether the tree allows it. -/
theorem Represents.mayMove_iff (h : Represents (kvs.row b) t) (hup : master.Up)
    (hfolder : t.item (p ++ [m]) = some .folder) (hq : t.item q = some .folder) :
    MayMove master kvs b (pathOf (p ++ [m])) (pathOf q) ↔ t.CanMove (p ++ [m]) q m := by
  have hsource : IsPath (pathOf (p ++ [m])) := isPath_pathOf (by simp)
  have hname : afterLast 47 (pathOf (p ++ [m])) = m.1 := by
    rw [pathOf_concat, afterLast_inFolder m.2]
  constructor
  · intro hmay
    refine ⟨by simp [hfolder], by simp, hq, ?_, fun hpre => ?_⟩
    · have hfree := hmay.not_live h.wellFormed hsource (isFolderPath_pathOf q)
        (h.existing_iff.mpr hq)
      rw [hname, ← pathOf_concat, h.live_iff (by simp), not_not] at hfree
      exact hfree
    · have hne : q ≠ [] := fun hnil => by simp [hnil] at hpre
      exact hmay.not_under (isPath_pathOf hne) ((under_pathOf_iff (by simp)).mpr hpre)
  · intro hm
    refine ⟨isErr_lookup hup b, ?_, ?_, pathOf_ne_nil (by simp)⟩
    · rintro (heq | hpre)
      · exact hm.outside (pathOf_injective heq ▸ List.prefix_refl _)
      · obtain ⟨u, hu⟩ := List.isPrefixOf_iff_prefix.mp hpre
        refine hm.outside ((under_pathOf_iff (by simp)).mp ?_)
        rw [← hu, List.append_assoc]
        exact under_slash _ u
    · rw [hname]
      intro hmem
      obtain ⟨e, he, hlast⟩ := List.mem_map.mp hmem
      have hnil : e ≠ [] := by
        rintro rfl
        exact isValidName_ne_nil m.2 hlast.symm
      rcases hw : kvs.row b (metaCol (pathOf q)) with _ | w
      · rw [Tablet.isErr_of_none hw, if_pos rfl] at he
        exact hnil (by simpa [splitStringStorage] using he)
      · rw [Tablet.text_of_row hw, h.not_isErr hq hw, if_neg (by decide)] at he
        obtain ⟨n, rfl, hn⟩ := ((h.listings q hq).mem_iff e).mp
          (mem_entriesOf.mpr ⟨hnil, w, hw, he⟩)
        rw [pathOf_concat, afterLast_inFolder n.2] at hlast
        rw [Subtype.ext hlast] at hn
        exact hn hm.free

theorem does_upload (h : Represents (kvs.row b) t) (hup : master.Up) {data : Bytes}
    (hfits : StorageRequest.Fits (kvs.row b) (.upload (pathOf p) n.1 data))
    (hrun : (webStorageUpload b fuel (pathOf p) n.1 data).run (Call.exec master) kvs = (.ok a, s)) :
    ∃ t', StorageRequest.Does t (.upload (pathOf p) n.1 data) a t' ∧ Represents (s.row b) t' := by
  obtain ⟨hex, hw, hdata, hlen, hdots, htried⟩ := hfits
  obtain ⟨i, hfree, htaken, hstore⟩ := run_webStorageUpload hup n.2 hrun
  obtain ⟨hhold, hphrase, hroot⟩ := htried i hfree htaken
  have hp := h.existing_iff.mp hex
  obtain ⟨w, hw⟩ := Option.ne_none_iff_exists'.mp hw
  -- the paths are those of the names that are tried
  have hpath : ∀ j ≤ i, triedPath (inFolder (pathOf p) n.1) j = pathOf (p ++ [n.tried j]) := by
    intro j hj
    rw [← pathOf_concat]
    cases j with
    | zero => rfl
    | succ j =>
      obtain ⟨hname, hfolder⟩ := hdots (htaken 0 (by omega))
      exact (pathOf_tried hname hfolder _).symm
  rw [hpath i le_rfl] at hhold hphrase hstore
  obtain ⟨page, rfl⟩ := (grants_storeUpload _ _ _ _).answer hstore
  have hname : 47 ∉ triedName n.1 i ∧ triedName n.1 i ≠ [] := by
    have hslash := notMem_of_isValidName n.2
    have hne := isValidName_ne_nil n.2
    cases i with
    | zero => exact ⟨hslash, hne⟩
    | succ i =>
      refine ⟨fun hmem => ?_, fun hnil => hne (List.append_eq_nil_iff.mp hnil).1⟩
      rcases List.mem_append.mp hmem with hmem | hmem
      · exact hslash hmem
      · exact absurd (isNameChar_of_mem_parenthesized hmem) (by decide)
  refine ⟨_, .upload ⟨i, rfl, hhold.item_eq_none h, fun j hj => ?_⟩ (hhold.canCreate h hp),
    h.storeUpload hp hw hhold hdata hlen hphrase hname.1 hname.2
      (fun hnil => hroot (by rw [hnil, pathOf_nil])) hstore⟩
  have hfile := htaken j hj
  rw [hpath j hj.le] at hfile
  exact (h.live_iff (by simp)).mp (Or.inl hfile)

theorem does_createFolder (h : Represents (kvs.row b) t) (hup : master.Up)
    (hfits : StorageRequest.Fits (kvs.row b) (.createFolder (pathOf p) n.1))
    (hrun : (webStorageCreateFolder b (pathOf p) n.1).run (Call.exec master) kvs = (.ok a, s)) :
    ∃ t', StorageRequest.Does t (.createFolder (pathOf p) n.1) a t' ∧
      Represents (s.row b) t' := by
  obtain ⟨hex, hlive | ⟨hw, hhold, hcol⟩⟩ := hfits
  · obtain ⟨page, hpage⟩ := run_createFolder_taken hup n.2 hlive
    obtain ⟨ha, rfl⟩ := Prod.mk.inj (hpage.symm.trans hrun)
    rw [← pathOf_concat, h.live_iff (by simp)] at hlive
    rw [← Except.ok.inj ha]
    exact ⟨t, .createRefused hlive, h⟩
  · obtain ⟨page, rfl⟩ := run_createFolder_granted hup n.2 hcol hrun
    obtain ⟨w, hw⟩ := Option.ne_none_iff_exists'.mp hw
    have hp := h.existing_iff.mp hex
    rcases run_createFolder hrun with ⟨-, hrefused⟩ | ⟨-, -, hrow⟩
    · exact absurd rfl (hrefused page)
    · rw [← pathOf_concat] at hhold hrow
      exact ⟨_, .createFolder (hhold.canCreate h hp), h.webStorageCreateFolder hp hw hhold hrow⟩

theorem does_delete (h : Represents (kvs.row b) t) (hblank : Blank (kvs.row b))
    (hup : master.Up)
    (hfits : StorageRequest.Fits (kvs.row b) (.delete (pathOf (p ++ [n]))))
    (hrun : (webStorageDelete b fuel (pathOf (p ++ [n]))).run (Call.exec master) kvs =
      (.ok a, s)) :
    ∃ t', StorageRequest.Does t (.delete (pathOf (p ++ [n]))) a t' ∧ Represents (s.row b) t' := by
  obtain ⟨hlive, halone⟩ := hfits
  have hitem := (h.live_iff (by simp)).mp hlive
  have hparent : beforeLast 47 (pathOf (p ++ [n])) = pathOf p := by
    rw [pathOf_concat, beforeLast_inFolder n.2]
  have hname : afterLast 47 (pathOf (p ++ [n])) = n.1 := by
    rw [pathOf_concat, afterLast_inFolder n.2]
  rw [hparent, hname] at halone
  obtain ⟨page, rfl⟩ := run_delete_granted hup hrun
  rcases run_delete hrun with ⟨-, hrefused⟩ | hrun
  · exact absurd rfl (hrefused page)
  · rw [hparent, hname] at hrun
    exact ⟨_, .delete hitem, h.webStorageDelete hblank hitem halone hrun⟩

theorem does_renameFile (h : Represents (kvs.row b) t) (hup : master.Up) {new : Bytes}
    (hnew : isValidName new = true)
    (hfits : StorageRequest.Fits (kvs.row b) (.renameFile (pathOf p) m.1 new))
    (hrun : (webStorageRenameFile b (pathOf p) m.1 new).run (Call.exec master) kvs = (.ok a, s)) :
    ∃ t', StorageRequest.Does t (.renameFile (pathOf p) m.1 new) a t' ∧
      Represents (s.row b) t' := by
  obtain ⟨hold, hnext⟩ := hfits
  obtain ⟨n, hn⟩ : ∃ n : ItemName, n.1 = ensureSameExtension m.1 new :=
    ⟨⟨_, isValidName_ensureSameExtension m.2 hnew⟩, rfl⟩
  rw [← hn, ← pathOf_concat] at hnext
  rw [← pathOf_concat] at hold
  have hshown := fun n => h.items (p ++ [n]) (by simp)
  obtain ⟨d, hfile⟩ := (hshown m).file_iff.mp hold
  rcases hnext with htaken | hhold
  · obtain ⟨d', hd'⟩ := (hshown n).file_iff.mp htaken
    rw [pathOf_concat, hn] at htaken
    obtain ⟨page, hpage⟩ := run_renameFile_taken hup hnew htaken
    obtain ⟨ha, rfl⟩ := Prod.mk.inj (hpage.symm.trans hrun)
    rw [← Except.ok.inj ha]
    exact ⟨t, .renameFileRefused hn hd', h⟩
  · have hfree : kvs.row b (inFolder (pathOf p) (ensureSameExtension m.1 new)) ≠ some kvFile := by
      rw [← hn, ← pathOf_concat]
      exact fun hrow => hhold.free (Or.inl hrow)
    obtain ⟨page, rfl⟩ := run_renameFile_granted hup hnew hfree hrun
    rcases run_renameFile hrun with ⟨-, hrefused⟩ | ⟨-, u, hmove, hrow⟩
    · exact absurd rfl (hrefused page)
    · rw [← hn, ← pathOf_concat, ← pathOf_concat] at hmove hrow
      have hp := t.parent p m (by simp [hfile])
      have hm := hhold.canMove h hp (ne_of_file hfile hp) (by simp [hfile]) (leaf_of_file hfile)
      exact ⟨_, .renameFile hn hfile hm, h.webStorageRenameFile hfile hhold hmove hrow hm⟩

theorem does_renameFolder (h : Represents (kvs.row b) t) (hblank : Blank (kvs.row b))
    (hup : master.Up)
    (hfits : StorageRequest.Fits (kvs.row b) (.renameFolder (pathOf (p ++ [m])) n.1))
    (hrun : (webStorageRenameFolder b fuel (pathOf (p ++ [m])) n.1).run (Call.exec master) kvs =
      (.ok a, s)) :
    ∃ t', StorageRequest.Does t (.renameFolder (pathOf (p ++ [m])) n.1) a t' ∧
      Represents (s.row b) t' := by
  obtain ⟨hold, hnext⟩ := hfits
  have hparent : beforeLast 47 (pathOf (p ++ [m])) = pathOf p := by
    rw [pathOf_concat, beforeLast_inFolder m.2]
  rw [hparent, ← pathOf_concat] at hnext
  have hfolder := (h.items (p ++ [m]) (by simp)).folder_iff.mp hold
  rcases hnext with htaken | ⟨hempty, hhold⟩
  · have hitem := (h.items (p ++ [n]) (by simp)).folder_iff.mp htaken
    rw [pathOf_concat, ← hparent] at htaken
    obtain ⟨page, hpage⟩ := run_renameFolder_taken hup n.2 htaken
    obtain ⟨ha, rfl⟩ := Prod.mk.inj (hpage.symm.trans hrun)
    rw [← Except.ok.inj ha]
    exact ⟨t, .renameFolderRefused hitem, h⟩
  · have hfree : kvs.row b (inFolder (beforeLast 47 (pathOf (p ++ [m]))) n.1) ≠ some kvFolder := by
      rw [hparent, ← pathOf_concat]
      exact fun hrow => hhold.free (Or.inr hrow)
    obtain ⟨page, rfl⟩ := run_renameFolder_granted hup n.2 hfree hrun
    rcases run_renameFolder hrun with ⟨-, hrefused⟩ | ⟨-, hrun⟩
    · exact absurd rfl (hrefused page)
    · rw [hparent, ← pathOf_concat] at hrun
      have hleaf : ∀ u, u ≠ [] → t.item (p ++ [m] ++ u) = none := by
        refine h.leaf_of_entriesOf hfolder ?_
        rw [entriesOf_of_some (v := [])]
        · rfl
        · rw [(isPath_pathOf (by simp)).metaCol_eq, hempty]
      have hp := t.parent p m (by simp [hfolder])
      have hm := hhold.canMove h hp (by simp) (by simp [hfolder]) hleaf
      exact ⟨_, .renameFolder hfolder hm,
        h.webStorageRenameFolder hblank hfolder hempty hhold hrun hleaf hm⟩

theorem does_moveFile (h : Represents (kvs.row b) t) (hup : master.Up)
    (hfits : StorageRequest.Fits (kvs.row b) (.moveFile (pathOf p) m.1 (pathOf q)))
    (hrun : (webStorageMoveFile b fuel (pathOf p) m.1 (pathOf q)).run (Call.exec master) kvs =
      (.ok a, s)) :
    ∃ t', StorageRequest.Does t (.moveFile (pathOf p) m.1 (pathOf q)) a t' ∧
      Represents (s.row b) t' := by
  obtain ⟨hold, hex, hw, hplain, herr⟩ := hfits
  rw [← pathOf_concat] at hold hplain herr
  obtain ⟨d, hfile⟩ := (h.items (p ++ [m]) (by simp)).file_iff.mp hold
  have hq := h.existing_iff.mp hex
  obtain ⟨page, rfl⟩ := run_moveFile_granted hup m.2 hrun
  rcases run_moveFile m.2 hrun with ⟨-, hrefused⟩ | ⟨v, -, hv, u, hmove, hrun⟩
  · exact absurd rfl (hrefused page)
  · rw [← pathOf_concat] at hv hmove hrun
    obtain ⟨i, -, rfl, hfree, htaken⟩ := run_freeTarget_first (i := 0) hv
    rw [h.live_iff (by simp), not_not] at hfree
    have hhold := h.canHold_tried (fun heq => hplain (pathOf_eq_metadata.mpr heq)) herr hfree
    have hm := hhold.canMove h hq (ne_of_file hfile hq) (by simp [hfile]) (leaf_of_file hfile)
    refine ⟨_, .moveFile hfile ⟨i, rfl, hfree, fun j hj => ?_⟩ hm,
      h.webStorageMoveFile hfile hq hw hhold hmove hrun hm⟩
    exact (h.live_iff (by simp)).mp (htaken j (Nat.zero_le j) hj)

theorem does_moveFolder (h : Represents (kvs.row b) t) (hup : master.Up)
    (hfits : StorageRequest.Fits (kvs.row b) (.moveFolder (pathOf (p ++ [m])) (pathOf q)))
    (hrun : (webStorageMoveFolder b fuel (pathOf (p ++ [m])) (pathOf q)).run (Call.exec master)
      kvs = (.ok a, s)) :
    ∃ t', StorageRequest.Does t (.moveFolder (pathOf (p ++ [m])) (pathOf q)) a t' ∧
      Represents (s.row b) t' := by
  obtain ⟨hold, hex, hplain, herr⟩ := hfits
  have hname : afterLast 47 (pathOf (p ++ [m])) = m.1 := by
    rw [pathOf_concat, afterLast_inFolder m.2]
  rw [hname, ← pathOf_concat] at hplain herr
  have hfolder := (h.items (p ++ [m]) (by simp)).folder_iff.mp hold
  have hq := h.existing_iff.mp hex
  have hcan := h.mayMove_iff hup hfolder hq
  by_cases hmay : MayMove master kvs b (pathOf (p ++ [m])) (pathOf q)
  · have hm := hcan.mp hmay
    have hhold : CanHold (kvs.row b) (pathOf (q ++ [m])) :=
      ⟨fun hlive => (h.live_iff (by simp)).mp hlive hm.free, hplain, herr⟩
    obtain ⟨page, rfl⟩ := run_moveFolder_granted hmay hrun
    rw [pathOf_concat] at hrun
    rcases run_moveFolder m.2 hrun with ⟨-, hrefused⟩ | ⟨-, -, -, u, hmove, hrun⟩
    · exact absurd rfl (hrefused page)
    · rw [← pathOf_concat, ← pathOf_concat] at hmove hrun
      exact ⟨_, .moveFolder hfolder hm, h.webStorageMoveFolder hfolder hm hhold hmove hrun⟩
  · obtain ⟨page, hpage⟩ := run_moveFolder_stays hup hmay fuel
    obtain ⟨ha, rfl⟩ := Prod.mk.inj (hpage.symm.trans hrun)
    rw [← Except.ok.inj ha]
    exact ⟨t, .moveFolderRefused hq fun hm => hmay (hcan.mpr hm), h⟩

/-- **One request**: a row that represents a tree represents, after a request that fits, what
the request makes of the tree. -/
theorem Represents.does (h : Represents (kvs.row b) t) (hblank : Blank (kvs.row b))
    (hup : master.Up) {r : StorageRequest} (hvalid : r.Valid) (hfits : r.Fits (kvs.row b))
    (hrun : (r.handler b fuel).run (Call.exec master) kvs = (.ok a, s)) :
    ∃ t', StorageRequest.Does t r a t' ∧ Represents (s.row b) t' := by
  cases r with
  | list folder =>
    obtain ⟨p, rfl⟩ := IsFolderPath.exists_pathOf hvalid
    have hp := h.existing_iff.mp hfits
    have hrow := h.webStorageList hup hp
    have hpage := h.displays hup hp
    have hlist : (PennCloud.webStorageList b (pathOf p)).run (Call.exec master) kvs =
        (.ok a, s) := hrun
    rw [hlist] at hrow
    rw [shown, hlist] at hpage
    exact ⟨t, .list hp hpage, hrow⟩
  | upload folder filename fileData =>
    obtain ⟨p, rfl⟩ := hvalid.1.exists_pathOf
    exact does_upload h hup (n := ⟨filename, hvalid.2⟩) hfits hrun
  | createFolder parent name =>
    obtain ⟨p, rfl⟩ := hvalid.1.exists_pathOf
    exact does_createFolder h hup (n := ⟨name, hvalid.2⟩) hfits hrun
  | delete path =>
    obtain ⟨p, n, rfl⟩ := IsPath.exists_concat hvalid
    exact does_delete h hblank hup hfits hrun
  | renameFile folder oldName newName =>
    obtain ⟨p, rfl⟩ := hvalid.1.exists_pathOf
    exact does_renameFile h hup (m := ⟨oldName, hvalid.2.1⟩) hvalid.2.2 hfits hrun
  | renameFolder path newName =>
    obtain ⟨p, m, rfl⟩ := hvalid.1.exists_concat
    exact does_renameFolder h hblank hup (n := ⟨newName, hvalid.2⟩) hfits hrun
  | moveFile source filename target =>
    obtain ⟨p, rfl⟩ := hvalid.1.exists_pathOf
    obtain ⟨q, rfl⟩ := hvalid.2.2.exists_pathOf
    exact does_moveFile h hup (m := ⟨filename, hvalid.2.1⟩) hfits hrun
  | moveFolder source target =>
    obtain ⟨p, m, rfl⟩ := hvalid.1.exists_concat
    obtain ⟨q, rfl⟩ := hvalid.2.exists_pathOf
    exact does_moveFolder h hup hfits hrun

end Steps

end PennCloud
