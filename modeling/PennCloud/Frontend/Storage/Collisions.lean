import PennCloud.Frontend.Storage.Requests

/-!
# What an operation must not damage

An upload, a new folder, a rename or a move writes to a path that may already be
taken, and each of the six handlers looks for that in its own way: one asks for a
file, another for a folder, a third looks at the listing of the target. Where the
test is not the right one, a live item is overwritten
(`PennCloud.upload_over_folder`: an upload to the path of a folder makes a file of
it, and the folder's listing the beginning of its list of chunks).

An item is **spared** by a request when its columns are as before, but for the
listing of a folder that the request puts something on or takes something off
(`PennCloud.Spared`). Every item other than the one that is moved is spared when
the path that is written to is free in the way the handler does *not* look at – or
taken in the way it does, so that it refuses –, when what is moved is tidy, and when
the listings that are changed are listings of folders
(`PennCloud.StorageRequest.Harmless`). That is
`PennCloud.spared_of_harmless`, for every row that is reached.
-/

namespace PennCloud

open Wire Calls Text

/-! ### The conditions -/

/-- The path that an upload to `path` is stored at: `path` itself unless it is a
file, and otherwise the first variant that is not a file. -/
def UploadsTo (R : Row) (path v : Bytes) : Prop :=
  (R path ≠ some kvFile ∧ v = path) ∨
    (R path = some kvFile ∧ ∃ i, v = variantPath path i ∧ R v ≠ some kvFile ∧
      ∀ n, 1 ≤ n → n < i → R (variantPath path n) = some kvFile)

/-- Nothing lives at a path or below it. -/
def Free (R : Row) (a : Bytes) : Prop := ∀ p, IsPath p → Under a p → ¬Live R p

/-- The listing column of a folder is the listing of a folder: it is not a file's
list of chunks, nor, at the root, an item's marker. -/
def Updatable (R : Row) (folder : Bytes) : Prop :=
  R folder ≠ some kvFile ∧ (folder = [] → ¬Live R (ascii "metadata"))

/-- The listing of a folder names an item already. -/
def ListsName (R : Row) (folder n : Bytes) : Prop :=
  ∃ w, R (metaCol folder) = some w ∧ isErr w = false ∧
    n ∈ (splitStringStorage w).map (afterLast 47)

namespace StorageRequest

/-- A request that puts something at a path. -/
def Places : StorageRequest → Prop
  | .list _ => False
  | .delete _ => False
  | _ => True

/-- What a request moves away. -/
def Moves : StorageRequest → Bytes → Prop
  | .renameFile folder oldName _, q => q = inFolder folder oldName
  | .moveFile source filename _, q => q = inFolder source filename
  | .renameFolder path _, q => Under path q
  | .moveFolder source _, q => Under source q
  | _, _ => False

/-- The folders whose listing a request changes. -/
def Lists : StorageRequest → Bytes → Prop
  | .upload folder _ _, q => q = folder
  | .createFolder parent _, q => q = parent
  | .renameFile folder _ _, q => q = folder
  | .renameFolder path _, q => q = beforeLast 47 path
  | .moveFile source _ target, q => q = source ∨ q = target
  | .moveFolder source target, q => q = beforeLast 47 source ∨ q = target
  | _, _ => False

/-- **What keeps a request from damaging anything**: what its handler does not look
at itself, unless it finds the destination taken and refuses. -/
def Harmless (R : Row) : StorageRequest → Prop
  | .upload folder filename _ => Updatable R folder ∧
    ∀ v, UploadsTo R (inFolder folder filename) v → R v ≠ some kvFolder
  | .createFolder parent _ => Updatable R parent
  | .renameFile folder oldName newName => Updatable R folder ∧
    OwnChunks R (inFolder folder oldName) ∧
    R (inFolder folder (ensureSameExtension oldName newName)) ≠ some kvFolder
  | .renameFolder path newName => R (inFolder (beforeLast 47 path) newName) = some kvFolder ∨
    Updatable R (beforeLast 47 path) ∧ R path = some kvFolder ∧ Tidy R path ∧
      Free R (inFolder (beforeLast 47 path) newName)
  | .moveFile source filename target => Updatable R source ∧ Updatable R target ∧
    OwnChunks R (inFolder source filename)
  | .moveFolder source target => ListsName R target (afterLast 47 source) ∨
    Updatable R (beforeLast 47 source) ∧ Updatable R target ∧ R source = some kvFolder ∧
      Tidy R source ∧ Free R (inFolder target (afterLast 47 source))
  | .list _ => True
  | .delete _ => True

end StorageRequest

/-- **An item is spared**: its marker, its listing or list of chunks and all of its
contents are as before – but for the listing of a folder that is one of `L`. -/
def Spared (L : Bytes → Prop) (R R' : Row) (q : Bytes) : Prop :=
  ∀ c, ColumnOf q c → R' c = R c ∨ (c = q ++ ascii "-metadata" ∧ L q ∧ R q = some kvFolder)

section Spared

variable {R : Row} {q : Bytes}

/-- A listing column is a column of its folder only. -/
theorem columnOf_metaCol {folder : Bytes} (hf : IsFolderPath folder) (hq : IsPath q)
    (h : ColumnOf q (metaCol folder)) :
    (folder ≠ [] ∧ q = folder) ∨ (folder = [] ∧ q = ascii "metadata") := by
  rw [metaCol] at h
  rcases hf with rfl | hf
  · exact Or.inr ⟨rfl, h.eq hq.notMem_dash (by decide) (ColumnOf.refl _)⟩
  · rw [if_neg hf.ne_nil] at h
    exact Or.inl ⟨hf.ne_nil, h.eq hq.notMem_dash hf.notMem_dash (columnOf_metadata folder)⟩

/-- Changing the listing of a folder spares every live item. -/
theorem Updatable.spares {folder c : Bytes} (hf : IsFolderPath folder) (hu : Updatable R folder)
    (hq : IsPath q) (hlive : Live R q) (hc : ColumnOf q c) (hcol : c = metaCol folder) :
    c = q ++ ascii "-metadata" ∧ q = folder ∧ R q = some kvFolder := by
  subst hcol
  rcases columnOf_metaCol hf hq hc with ⟨hne, rfl⟩ | ⟨rfl, rfl⟩
  · exact ⟨if_neg hne, rfl, hlive.resolve_left hu.1⟩
  · exact absurd hlive (hu.2 rfl)

end Spared

/-! ### The handlers -/

section Handlers

variable {b : Bytes} {master : Master} {kvs : Tablet} {q : Bytes}

/-- Without a worker nothing happens. -/
theorem onWorker_row_eq {h : Handler Answer} {c : Bytes}
    (hh : (h.run (Call.exec master) kvs).2.row b c = kvs.row b c) :
    ((onWorker b h).run (Call.exec master) kvs).2.row b c = kvs.row b c := by
  rw [onWorker, run_lookup_bind]
  split_ifs
  · rfl
  · exact hh

theorem writes_storeChunks {X : Bytes → Prop} {path : Bytes} (hX : ∀ c, ColumnOf path c → X c)
    (rounds i : ℕ) (rest : Bytes) : Writes b X (storeChunks b path rounds i rest) := by
  induction rounds generalizing i rest with
  | zero => exact trivial
  | succ rounds ih =>
    rw [storeChunks]
    refine Writes.ite (fun _ => trivial) fun _ => Writes.get fun _ =>
      Writes.put (hX _ (columnOf_metadata path)) fun _ => Writes.put (hX _ ?_) fun _ => ih (i + 1) _
    rw [List.append_assoc, List.append_assoc]
    exact columnOf_dash path _

theorem writes_storeUpload {folder filename path fileData : Bytes} :
    Writes b (fun c => c = metaCol folder ∨ ColumnOf path c)
      (storeUpload b folder filename path fileData) :=
  Writes.put (Or.inr (ColumnOf.refl path)) fun _ =>
    (writes_storeChunks (fun _ => Or.inr) _ _ _).bind fun _ =>
      Writes.get fun _ => Writes.cput (Or.inl rfl) fun _ => trivial

theorem writes_makeFolder {parent name path : Bytes} {X : Bytes → Prop}
    (hX : ∀ c, ColumnOf path c → X c) : Writes b X (makeFolder b parent name path) :=
  Writes.put (hX _ (ColumnOf.refl path)) fun _ =>
    Writes.put (hX _ (columnOf_metadata path)) fun _ => trivial

theorem writes_removeEntry {folder entry : Bytes} {X : Bytes → Prop} (hX : X (metaCol folder)) :
    Writes b X (removeEntry b folder entry) :=
  Writes.get fun _ => Writes.ite (fun _ => Writes.delete hX fun _ => trivial) fun _ =>
    Writes.put hX fun _ => trivial

/-- A new folder overwrites nothing: a path that is taken is refused. -/
theorem createFolder_row_eq {parent name c : Bytes} (hc : c ≠ metaCol parent)
    (hpath : Live (kvs.row b) (inFolder parent name) ∨ ¬ColumnOf (inFolder parent name) c) :
    ((webStorageCreateFolder b parent name).run (Call.exec master) kvs).2.row b c =
      kvs.row b c := by
  refine onWorker_row_eq ?_
  split_ifs
  · rfl
  · rw [run_Get_bind]
    split_ifs with htaken
    · rfl
    · have hfree : ¬Live (kvs.row b) (inFolder parent name) := by
        rintro (hlive | hlive) <;> rw [Tablet.text_of_row hlive] at htaken <;>
          exact absurd htaken (by decide)
      refine Writes.row_eq (X := fun c => c = metaCol parent ∨ ColumnOf (inFolder parent name) c)
        ?_ master kvs (not_or.mpr ⟨hc, hpath.resolve_left hfree⟩)
      refine Writes.get fun _ => Writes.ite (fun _ => writes_makeFolder fun _ => Or.inr) fun _ =>
        Writes.put (Or.inl rfl) fun _ => writes_makeFolder fun _ => Or.inr

/-- An upload writes the listing of its folder and the path it is stored at. -/
theorem upload_row_eq {fuel : ℕ} {folder filename fileData c : Bytes} (hc : c ≠ metaCol folder)
    (hpath : ∀ v, UploadsTo (kvs.row b) (inFolder folder filename) v → ¬ColumnOf v c) :
    ((webStorageUpload b fuel folder filename fileData).run (Call.exec master) kvs).2.row b c =
      kvs.row b c := by
  refine onWorker_row_eq ?_
  split_ifs
  · rfl
  · rw [run_Get_bind]
    split_ifs with hfile
    · have hrow := (Tablet.text_eq_iff isErr_kvFile).mp hfile
      refine row_eq_bind ?_ fun i s hi => ?_
      · rw [(reads_freeUpload _ _ _).run_eq _ (fun c s hc => hc.exec_eq) kvs]
      · obtain ⟨rfl, -, -, hi', hall⟩ := run_freeUpload hi
        exact writes_storeUpload.row_eq master s (not_or.mpr ⟨hc, hpath _ (Or.inr
          ⟨hrow, i, rfl, hi', fun n h1 h2 => hall n h1 h2⟩)⟩)
    · have hrow : kvs.row b (inFolder folder filename) ≠ some kvFile := fun h =>
        hfile ((Tablet.text_eq_iff isErr_kvFile).mpr h)
      exact writes_storeUpload.row_eq master kvs
        (not_or.mpr ⟨hc, hpath _ (Or.inl ⟨hrow, rfl⟩)⟩)

/-- A file that is renamed: the listing of its folder, the old path and the new
one, which is not a file. -/
theorem renameFile_row_eq {folder oldName newName c : Bytes} (hc : c ≠ metaCol folder)
    (hown : OwnChunks (kvs.row b) (inFolder folder oldName))
    (hold : ¬ColumnOf (inFolder folder oldName) c)
    (hnew : kvs.row b (inFolder folder (ensureSameExtension oldName newName)) = some kvFile ∨
      ¬ColumnOf (inFolder folder (ensureSameExtension oldName newName)) c) :
    ((webStorageRenameFile b folder oldName newName).run (Call.exec master) kvs).2.row b c =
      kvs.row b c := by
  refine onWorker_row_eq ?_
  split_ifs
  · rfl
  · rw [run_Get_bind]
    split_ifs with hfile
    · rfl
    · have hnew' := hnew.resolve_left fun h => hfile ((Tablet.text_eq_iff isErr_kvFile).mpr h)
      refine row_eq_bind (relocateFile_row_eq master hown hold hnew') fun _ s _ => ?_
      refine Writes.row_eq (X := fun c => c = metaCol folder) ?_ master s hc
      exact Writes.get fun _ => Writes.put rfl fun _ => trivial

/-- A file that is moved: the two listings, the old path, and a new one that is
free. -/
theorem moveFile_row_eq {fuel : ℕ} {source filename target c : Bytes}
    (hname : isValidName filename = true) (hsource : c ≠ metaCol source)
    (htarget : c ≠ metaCol target) (hown : OwnChunks (kvs.row b) (inFolder source filename))
    (hold : ¬ColumnOf (inFolder source filename) c)
    (hnew : ∀ m, isValidName m = true → ¬Live (kvs.row b) (inFolder target m) →
      ¬ColumnOf (inFolder target m) c) :
    ((webStorageMoveFile b fuel source filename target).run (Call.exec master) kvs).2.row b c =
      kvs.row b c := by
  refine onWorker_row_eq ?_
  rw [if_neg (isValidName_ne_nil hname), moveFile, beforeLast_inFolder hname,
    afterLast_inFolder hname, Prog.bind_bind]
  refine row_eq_bind ?_ fun v s hv => ?_
  · rw [(reads_freeTarget _ _ _ _ _ _).run_eq _ (fun c s hc => hc.exec_eq) kvs]
  · obtain ⟨m, hm, rfl⟩ := exists_name_of_freeTarget hname hv
    obtain ⟨rfl, hfree, -⟩ := run_freeTarget hv
    rw [Prog.bind_bind]
    refine row_eq_bind (relocateFile_row_eq master hown hold (hnew m hm hfree)) fun _ s' _ => ?_
    refine Writes.row_eq (X := fun c => c = metaCol source ∨ c = metaCol target) ?_ master s'
      (not_or.mpr ⟨hsource, htarget⟩)
    refine Writes.bind (Writes.get fun _ => Writes.put (Or.inr rfl) fun _ => ?_) fun _ => trivial
    exact (writes_removeEntry (Or.inl rfl)).bind fun _ => trivial

/-- A folder and a free path for it next to it are apart. -/
theorem apart_of_free {folder n n' : Bytes} (hfolder : IsFolderPath folder)
    (hn : isValidName n = true) (hn' : isValidName n' = true) {R : Row}
    (hlive : R (inFolder folder n) = some kvFolder) (hfree : Free R (inFolder folder n')) :
    Apart (inFolder folder n) (inFolder folder n') := by
  have hpath := IsPath.inFolder hfolder hn
  have hne : n ≠ n' := by
    rintro rfl
    exact hfree _ hpath (Under.refl _) (Or.inr hlive)
  exact ⟨not_under_inFolder hn' hne, not_under_inFolder hn (Ne.symm hne)⟩

/-- A folder and a free path for it in a folder that is not below it are apart. -/
theorem apart_of_guard {source target n : Bytes} (hsource : IsPath source)
    (htarget : IsFolderPath target) (hn : isValidName n = true) {R : Row}
    (hlive : R source = some kvFolder) (hfree : Free R (inFolder target n))
    (hguard : ¬(target = source ∨ (source ++ [47]).isPrefixOf target = true)) :
    Apart source (inFolder target n) := by
  obtain ⟨hne, hprefix⟩ := not_or.mp hguard
  refine ⟨fun hu => ?_, fun hu => hfree source hsource hu (Or.inr hlive)⟩
  rcases under_inFolder htarget hn hu with heq | ⟨hpath, hu⟩
  · exact hfree source hsource (heq ▸ Under.refl _) (Or.inr hlive)
  · rcases hu.eq_or_slash hpath with heq | ⟨t, rfl⟩
    · exact hne heq
    · exact hprefix (List.isPrefixOf_iff_prefix.mpr ⟨t, by simp⟩)

/-- A tidy folder that is renamed: the listing of its folder, and what belongs to
the old path or to the new one. -/
theorem renameFolder_row_eq {fuel : ℕ} {folder n newName c : Bytes} (hblank : Blank (kvs.row b))
    (hfolder : IsFolderPath folder) (hn : isValidName n = true) (hn' : isValidName newName = true)
    (hupd : Updatable (kvs.row b) folder) (hlive : kvs.row b (inFolder folder n) = some kvFolder)
    (htidy : Tidy (kvs.row b) (inFolder folder n))
    (hfree : Free (kvs.row b) (inFolder folder newName)) (hc : c ≠ metaCol folder)
    (hold : ¬Under (inFolder folder n) c) (hnew : ¬Under (inFolder folder newName) c) :
    ((webStorageRenameFolder b fuel (inFolder folder n) newName).run (Call.exec master)
      kvs).2.row b c = kvs.row b c := by
  have hmeta : ¬Under (inFolder folder n) (metaCol folder) := not_under_metaCol fun h0 => by
    rintro rfl
    rw [h0, inFolder_nil] at hlive
    exact hupd.2 h0 (Or.inr hlive)
  refine onWorker_row_eq ?_
  rw [beforeLast_inFolder hn]
  split_ifs
  · rfl
  · rw [run_Get_bind]
    split_ifs
    · rfl
    · rw [run_Get_bind, run_Put_bind, renameFolderRec_eq]
      -- the listing that was put does not belong to the folder
      have hrow : ∀ c', Under (inFolder folder n) c' →
          (kvs.put b (metaCol folder) (joinStorage (replaceEntry (inFolder folder n)
            (inFolder folder newName) (splitStringStorage (kvs.text b (metaCol folder)))))).row b c'
            = kvs.row b c' := fun c' hc' => by
        rw [Tablet.row_put, Function.update_of_ne (ne_of_under hc' hmeta)]
      refine (row_eq_bind ?_ fun _ _ _ => rfl).trans (?_ : _ = kvs.row b c)
      · refine safeMove_moveTree fuel (IsPath.inFolder hfolder hn)
          (IsPath.inFolder hfolder hn') (apart_of_free hfolder hn hn' hlive hfree) ?_ ?_
          (htidy.congr hrow) c hold hnew
        · rw [Tablet.row_put]
          exact hblank.update (rooted_metaCol hfolder).not_isBlank _
        · rw [hrow _ (Under.refl _)]
          exact hlive
      · rw [Tablet.row_put, Function.update_of_ne hc]

/-- A folder is not renamed to a name that is taken by a folder. -/
theorem renameFolder_refused {fuel : ℕ} {path newName : Bytes}
    (htaken : kvs.row b (inFolder (beforeLast 47 path) newName) = some kvFolder) (c : Bytes) :
    ((webStorageRenameFolder b fuel path newName).run (Call.exec master) kvs).2.row b c =
      kvs.row b c := by
  refine onWorker_row_eq (row_eq_ite (fun _ => rfl) fun _ => ?_)
  rw [run_Get_bind, if_pos ((Tablet.text_eq_iff isErr_kvFolder).mpr htaken)]
  rfl

/-- A folder is not moved into one that lists its name. -/
theorem moveFolder_refused {fuel : ℕ} {source target : Bytes}
    (htaken : ListsName (kvs.row b) target (afterLast 47 source)) (c : Bytes) :
    ((webStorageMoveFolder b fuel source target).run (Call.exec master) kvs).2.row b c =
      kvs.row b c := by
  obtain ⟨w, hw, herr, hmem⟩ := htaken
  have htext : kvs.text b (metaCol target) = w := (Tablet.text_eq_iff herr).mpr hw
  refine onWorker_row_eq (row_eq_ite (fun _ => rfl) fun _ => ?_)
  rw [run_Get_bind, htext, herr]
  exact row_eq_ite (fun _ => rfl) fun hnot => absurd hmem hnot

/-- A tidy folder that is moved: the two listings, and what belongs to the old path
or to the new one. -/
theorem moveFolder_row_eq {fuel : ℕ} {folder n target c : Bytes} (hblank : Blank (kvs.row b))
    (hfolder : IsFolderPath folder) (hn : isValidName n = true) (htarget : IsFolderPath target)
    (hlive : kvs.row b (inFolder folder n) = some kvFolder)
    (htidy : Tidy (kvs.row b) (inFolder folder n))
    (hfree : Free (kvs.row b) (inFolder target n)) (hc : c ≠ metaCol folder)
    (hc' : c ≠ metaCol target) (hold : ¬Under (inFolder folder n) c)
    (hnew : ¬Under (inFolder target n) c) :
    ((webStorageMoveFolder b fuel (inFolder folder n) target).run (Call.exec master)
      kvs).2.row b c = kvs.row b c := by
  have hpath := IsPath.inFolder hfolder hn
  refine onWorker_row_eq (row_eq_ite (fun _ => rfl) fun hguard => ?_)
  rw [run_Get_bind]
  refine row_eq_ite (fun _ => rfl) fun _ => row_eq_ite (fun _ => rfl) fun _ => ?_
  rw [moveFolder, renameFolderMoveRec_eq, afterLast_inFolder hn, beforeLast_inFolder hn,
    Prog.bind_bind]
  refine row_eq_bind (safeMove_moveTree fuel hpath (IsPath.inFolder htarget hn)
    (apart_of_guard hpath htarget hn hlive hfree hguard) hblank hlive htidy c hold hnew)
    fun _ s _ => ?_
  refine Writes.row_eq (X := fun c => c = metaCol folder ∨ c = metaCol target) ?_ master s
    (not_or.mpr ⟨hc, hc'⟩)
  exact Writes.bind (Writes.get fun _ => Writes.put (Or.inr rfl) fun _ =>
    writes_removeEntry (Or.inl rfl)) fun _ => trivial

end Handlers

/-! ### Nothing is damaged -/

/-- A request that changes two listings, or one of them twice, and otherwise writes
to columns that are not the item's spares the item. -/
theorem spared_of_lists {L : Bytes → Prop} {R R' : Row} {folder folder' q : Bytes}
    {X : Bytes → Prop} (hfolder : IsFolderPath folder ∧ Updatable R folder ∧ L folder)
    (hfolder' : IsFolderPath folder' ∧ Updatable R folder' ∧ L folder')
    (hq : IsPath q) (hlive : Live R q) (hX : ∀ c, ColumnOf q c → ¬X c)
    (hrow : ∀ c, c ≠ metaCol folder → c ≠ metaCol folder' → ¬X c → R' c = R c) :
    Spared L R R' q := by
  intro c hc
  by_cases h : c = metaCol folder
  · obtain ⟨h1, rfl, h2⟩ := hfolder.2.1.spares hfolder.1 hq hlive hc h
    exact Or.inr ⟨h1, hfolder.2.2, h2⟩
  · by_cases h' : c = metaCol folder'
    · obtain ⟨h1, rfl, h2⟩ := hfolder'.2.1.spares hfolder'.1 hq hlive hc h'
      exact Or.inr ⟨h1, hfolder'.2.2, h2⟩
    · exact Or.inl (hrow c h h' (hX c hc))

section Spare

variable {b : Bytes} {master : Master} {kvs₀ kvs : Tablet}

/-- **No live item is damaged.** In every row that is reached, a request that is
harmless there spares every live item but the one it moves – whether it is
answered, refused or stopped on the way. -/
theorem spared_of_harmless (h0 : ∀ c, kvs₀.row b c = none)
    (h : Runs.Reaches (StorageRequest.step master b) (fun _ e => e.2.Valid) kvs₀ kvs)
    {r : StorageRequest} (hr : r.Valid) (hplaces : r.Places) (hharmless : r.Harmless (kvs.row b))
    (fuel : ℕ) {q : Bytes} (hq : IsPath q) (hlive : Live (kvs.row b) q) (hmoves : ¬r.Moves q) :
    Spared r.Lists (kvs.row b) ((StorageRequest.step master b kvs (fuel, r)).row b) q := by
  have hblank := blank_of_reaches h0 h
  cases r with
  | list folder => exact hplaces.elim
  | delete path => exact hplaces.elim
  | upload folder filename fileData =>
    obtain ⟨hupd, hv⟩ := hharmless
    refine spared_of_lists (X := fun c =>
        ∃ v, UploadsTo (kvs.row b) (inFolder folder filename) v ∧ ColumnOf v c)
      ⟨hr.1, hupd, rfl⟩ ⟨hr.1, hupd, rfl⟩ hq hlive ?_ fun c hc _ hX => upload_row_eq hc
        fun v hv' hcol => hX ⟨v, hv', hcol⟩
    rintro c hc ⟨v, hto, hcol⟩
    have hdash : 45 ∉ v := by
      have hpath := (IsPath.inFolder hr.1 hr.2).notMem_dash
      rcases hto with ⟨-, rfl⟩ | ⟨-, i, rfl, -⟩
      · exact hpath
      · exact notMem_variantPath (by decide) hpath i
    have hfile : kvs.row b v ≠ some kvFile := by
      rcases hto with ⟨hne, rfl⟩ | ⟨-, i, rfl, hne, -⟩
      · exact hne
      · exact hne
    obtain rfl := hc.eq hq.notMem_dash hdash hcol
    exact hlive.elim hfile (hv _ hto)
  | createFolder parent name =>
    have hpath := IsPath.inFolder hr.1 hr.2
    refine spared_of_lists (X := fun c => ¬Live (kvs.row b) (inFolder parent name) ∧
        ColumnOf (inFolder parent name) c)
      ⟨hr.1, hharmless, rfl⟩ ⟨hr.1, hharmless, rfl⟩ hq hlive ?_ fun c hc _ hX =>
        createFolder_row_eq hc ?_
    · rintro c hc ⟨hfree, hcol⟩
      obtain rfl := hc.eq hq.notMem_dash hpath.notMem_dash hcol
      exact hfree hlive
    · by_contra hno
      exact hX ⟨fun hl => hno (Or.inl hl), by_contra fun hcol => hno (Or.inr hcol)⟩
  | renameFile folder oldName newName =>
    obtain ⟨hfolder, hold, hnew⟩ := hr
    obtain ⟨hupd, hown, hfree⟩ := hharmless
    have hdash := (IsPath.inFolder hfolder
      (isValidName_ensureSameExtension hold hnew)).notMem_dash
    refine spared_of_lists (X := fun c => ColumnOf (inFolder folder oldName) c ∨
        kvs.row b (inFolder folder (ensureSameExtension oldName newName)) ≠ some kvFile ∧
          ColumnOf (inFolder folder (ensureSameExtension oldName newName)) c)
      ⟨hfolder, hupd, rfl⟩ ⟨hfolder, hupd, rfl⟩ hq hlive ?_ fun c hc _ hX =>
        renameFile_row_eq hc hown (fun hcol => hX (Or.inl hcol)) ?_
    · rintro c hc (hcol | ⟨hfile, hcol⟩)
      · exact hmoves (hc.eq hq.notMem_dash (IsPath.inFolder hfolder hold).notMem_dash hcol)
      · obtain rfl := hc.eq hq.notMem_dash hdash hcol
        exact hlive.elim hfile hfree
    · by_contra hno
      exact hX (Or.inr ⟨fun hf => hno (Or.inl hf), by_contra fun hcol => hno (Or.inr hcol)⟩)
  | renameFolder path newName =>
    obtain ⟨hpath, hnew⟩ := hr
    rcases hharmless with htaken | ⟨hupd, hfolder', htidy, hfree⟩
    · exact fun c _ => Or.inl (renameFolder_refused htaken c)
    obtain ⟨folder, n, hfolder, hn, rfl⟩ := hpath.exists_inFolder
    rw [beforeLast_inFolder hn] at hupd hfree
    have hlists : StorageRequest.Lists (.renameFolder (inFolder folder n) newName) folder :=
      (beforeLast_inFolder hn).symm
    have hnewpath := IsPath.inFolder hfolder hnew
    refine spared_of_lists (X := fun c => Under (inFolder folder n) c ∨
        Under (inFolder folder newName) c)
      ⟨hfolder, hupd, hlists⟩ ⟨hfolder, hupd, hlists⟩ hq hlive ?_ fun c hc _ hX =>
        renameFolder_row_eq hblank hfolder hn hnew hupd hfolder' htidy hfree hc
          (fun hu => hX (Or.inl hu)) fun hu => hX (Or.inr hu)
    rintro c hc (hu | hu)
    · exact hmoves (hc.under_iff hpath.notMem_dash hu)
    · exact hfree q hq (hc.under_iff hnewpath.notMem_dash hu) hlive
  | moveFile source filename target =>
    obtain ⟨hsource, hname, htarget⟩ := hr
    obtain ⟨hupd, hupd', hown⟩ := hharmless
    refine spared_of_lists (X := fun c => ColumnOf (inFolder source filename) c ∨
        ∃ m, isValidName m = true ∧ ¬Live (kvs.row b) (inFolder target m) ∧
          ColumnOf (inFolder target m) c)
      ⟨hsource, hupd, Or.inl rfl⟩ ⟨htarget, hupd', Or.inr rfl⟩ hq hlive ?_ fun c hc hc' hX =>
        moveFile_row_eq hname hc hc' hown (fun hcol => hX (Or.inl hcol)) fun m hm hfree hcol =>
          hX (Or.inr ⟨m, hm, hfree, hcol⟩)
    rintro c hc (hcol | ⟨m, hm, hfree, hcol⟩)
    · exact hmoves (hc.eq hq.notMem_dash (IsPath.inFolder hsource hname).notMem_dash hcol)
    · obtain rfl := hc.eq hq.notMem_dash (IsPath.inFolder htarget hm).notMem_dash hcol
      exact hfree hlive
  | moveFolder source target =>
    obtain ⟨hpath, htarget⟩ := hr
    rcases hharmless with htaken | ⟨hupd, hupd', hfolder', htidy, hfree⟩
    · exact fun c _ => Or.inl (moveFolder_refused htaken c)
    obtain ⟨folder, n, hfolder, hn, rfl⟩ := hpath.exists_inFolder
    rw [beforeLast_inFolder hn] at hupd
    rw [afterLast_inFolder hn] at hfree
    have hlists : StorageRequest.Lists (.moveFolder (inFolder folder n) target) folder :=
      Or.inl (beforeLast_inFolder hn).symm
    have hnewpath := IsPath.inFolder htarget hn
    refine spared_of_lists (X := fun c => Under (inFolder folder n) c ∨
        Under (inFolder target n) c)
      ⟨hfolder, hupd, hlists⟩ ⟨htarget, hupd', Or.inr rfl⟩ hq hlive ?_ fun c hc hc' hX =>
        moveFolder_row_eq hblank hfolder hn htarget hfolder' htidy hfree hc hc'
          (fun hu => hX (Or.inl hu)) fun hu => hX (Or.inr hu)
    rintro c hc (hu | hu)
    · exact hmoves (hc.under_iff hpath.notMem_dash hu)
    · exact hfree q hq (hc.under_iff hnewpath.notMem_dash hu) hlive

end Spare

/-! ### A file over a folder -/

/-- The row of a user. -/
def annsRow : Bytes := storageRow (ascii "ann")

/-- Ann has looked at her storage and has made a folder `a`. -/
def folderA : Tablet :=
  [(0, .list []), (0, .createFolder [] (ascii "a"))].foldl
    (StorageRequest.step Master.first annsRow) ∅

example : folderA.row annsRow (metaCol []) = some (ascii "a") := by decide +kernel

theorem reaches_folderA : Runs.Reaches (StorageRequest.step Master.first annsRow)
    (fun _ e => e.2.Valid) ∅ folderA := by
  refine Runs.Reaches.foldl _ (fun _ e he => ?_) _
  rcases List.mem_cons.mp he with rfl | he
  · exact Or.inl rfl
  · obtain rfl := List.mem_singleton.mp he
    exact ⟨Or.inl rfl, by decide⟩

theorem folderA_row_a : folderA.row annsRow (ascii "a") = some kvFolder := by decide +kernel

/-- An upload of another file spares the folder. -/
theorem folder_spared_by_upload :
    Spared (StorageRequest.Lists (.upload [] (ascii "c.txt") (ascii "x")))
      (folderA.row annsRow)
      ((StorageRequest.step Master.first annsRow folderA
        (0, .upload [] (ascii "c.txt") (ascii "x"))).row annsRow) (ascii "a") := by
  have hfree : folderA.row annsRow (ascii "c.txt") = none := by decide +kernel
  have hmeta : ¬Live (folderA.row annsRow) (ascii "metadata") := by decide +kernel
  have hroot : folderA.row annsRow [] ≠ some kvFile := by decide +kernel
  have hvalid : StorageRequest.Valid (.upload [] (ascii "c.txt") (ascii "x")) :=
    ⟨Or.inl rfl, by decide⟩
  have hharmless : StorageRequest.Harmless (folderA.row annsRow)
      (.upload [] (ascii "c.txt") (ascii "x")) := by
    refine ⟨⟨hroot, fun _ => hmeta⟩, ?_⟩
    rintro v (⟨-, rfl⟩ | ⟨hfile, -⟩)
    · rw [inFolder_nil, hfree]
      simp
    · rw [inFolder_nil, hfree] at hfile
      exact absurd hfile (by simp)
  exact spared_of_harmless (fun _ => rfl) reaches_folderA hvalid trivial hharmless 0 (by decide)
    (Or.inr folderA_row_a) id

/-- **An upload to the path of a folder makes a file of it**: the folder is live, is
not what is moved, and loses its marker. -/
theorem upload_over_folder : Live (folderA.row annsRow) (ascii "a") ∧
    Runs.Reaches (StorageRequest.step Master.first annsRow) (fun _ e => e.2.Valid) ∅ folderA ∧
    ¬Spared (StorageRequest.Lists (.upload [] (ascii "a") (ascii "x"))) (folderA.row annsRow)
      ((StorageRequest.step Master.first annsRow folderA
        (0, .upload [] (ascii "a") (ascii "x"))).row annsRow) (ascii "a") := by
  refine ⟨Or.inr folderA_row_a, reaches_folderA, fun h => ?_⟩
  have hafter : (StorageRequest.step Master.first annsRow folderA
      (0, .upload [] (ascii "a") (ascii "x"))).row annsRow (ascii "a") = some kvFile := by
    decide +kernel
  rcases h _ (ColumnOf.refl _) with heq | ⟨heq, -⟩
  · rw [hafter, folderA_row_a] at heq
    exact absurd heq (by decide)
  · exact absurd heq (by decide)

end PennCloud
