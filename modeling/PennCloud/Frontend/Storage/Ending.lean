import PennCloud.Frontend.Storage.Effects
import PennCloud.Frontend.Storage.Methods
import Mathlib.Data.Set.Card

/-!
# Where the storage service comes to an end

A method of the storage service whose request has been read may fail to answer for two
reasons. A file is moved whose list of chunks has a name that is shorter than its path,
and `substr` throws. Or a loop or a recursion goes on.

The second does not happen to the loops that look for a free name, because a row has
finitely many columns (`PennCloud.freeTarget_ends`, `PennCloud.freeUpload_ends`), nor
to the recursion that deletes, because it turns a folder into something else before it
goes on (`PennCloud.ends_deleteRec`); and that for *every* row, with listings in
circles or to nowhere. The two recursions that move a folder are another matter, since
they make new folders on their way. For the other methods there is a theorem each that
says when they answer, up to `PennCloud.ends_webStorageMoveFile`.
-/

namespace PennCloud

open Wire Calls Text

variable {master : Master} {kvs : Tablet} {b : Bytes}

/-! ### The worker -/

theorem ends_onWorker {handler : Handler Answer} :
    (onWorker b handler).Ends (Call.exec master) kvs ↔
      (Reached master b → handler.Ends (Call.exec master) kvs) := by
  rw [onWorker, ends_lookup_bind, Reached]
  cases isErr (clientText (master b)) with
  | false => simp
  | true => simp

/-! ### Handlers that always answer -/

theorem total_onWorker {handler : Handler Answer} (h : handler.Total) :
    (onWorker b handler).Total :=
  .ask_bind fun _ => .ite trivial h

theorem total_listItems (folder : Bytes) (entries : List Bytes) :
    (listItems b folder entries).Total := by
  induction entries with
  | nil => exact trivial
  | cons entry entries ih =>
    rw [listItems]
    exact .ite ih (.ask_bind fun _ => ih.bind fun _ => .ite trivial (.ite trivial trivial))

theorem total_listPage (folder metadata : Bytes) : (listPage b folder metadata).Total :=
  .ite trivial ((total_listItems folder _).bind fun _ => trivial)

theorem total_webStorageList (folder : Bytes) : (webStorageList b folder).Total := by
  refine total_onWorker (.ask_bind fun metadata => ?_)
  have hreset : (resetListing b folder metadata).Total := .ite (.ask_bind fun _ => trivial) trivial
  refine hreset.bind fun _ => .ite (total_listPage folder metadata) (.ask_bind fun _ => ?_)
  exact .ite trivial (total_listPage folder metadata)

theorem total_makeFolder (parent name path : Bytes) : (makeFolder b parent name path).Total :=
  .ask_bind fun _ => .ask_bind fun _ => trivial

theorem total_webStorageCreateFolder (parent newFolder : Bytes) :
    (webStorageCreateFolder b parent newFolder).Total := by
  refine total_onWorker (.ite trivial (.ask_bind fun _ => .ite trivial (.ask_bind fun _ => ?_)))
  exact .ite (total_makeFolder _ _ _) (.ask_bind fun _ => total_makeFolder _ _ _)

theorem total_removeEntry (folder entry : Bytes) : (removeEntry b folder entry).Total :=
  .ask_bind fun _ => .ite (.ask_bind fun _ => trivial) (.ask_bind fun _ => trivial)

theorem total_storeChunks (path : Bytes) (rounds i : ℕ) (rest : Bytes) :
    (storeChunks b path rounds i rest).Total := by
  induction rounds generalizing i rest with
  | zero => exact trivial
  | succ rounds ih =>
    rw [storeChunks]
    exact .ite trivial (.ask_bind fun _ => .ask_bind fun _ => .ask_bind fun _ => ih _ _)

theorem total_storeUpload (folder filename path fileData : Bytes) :
    (storeUpload b folder filename path fileData).Total :=
  .ask_bind fun _ => (total_storeChunks path _ _ _).bind fun _ =>
    .ask_bind fun _ => .ask_bind fun _ => trivial

theorem total_deleteChunks (absPath : Bytes) : (deleteChunks b absPath).Total := by
  refine .ask_bind fun fileMeta => .ite (.bind (.each (fun chunk => ?_) _) fun _ => ?_) trivial
  · exact .ask_bind fun _ => trivial
  · exact .ask_bind fun _ => trivial

/-! ### A row has finitely many columns -/

/-- The columns of a row that are there. -/
def Tablet.columns (kvs : Tablet) (b : Bytes) : Finset Bytes :=
  ((kvs.lookup b).map Finmap.keys).getD ∅

theorem Tablet.mem_columns {c : Bytes} : c ∈ kvs.columns b ↔ kvs.row b c ≠ none := by
  rw [Tablet.columns, Tablet.row, Tablet.cells]
  rcases kvs.lookup b with _ | columns
  · simp
  · exact Finmap.mem_keys.trans (Finmap.lookup_eq_none.not_left.symm)

theorem finite_row (kvs : Tablet) (b : Bytes) : {c | kvs.row b c ≠ none}.Finite :=
  (kvs.columns b).finite_toSet.subset fun _ hc => Tablet.mem_columns.mpr hc

/-- Of infinitely many paths, one is not in use. -/
theorem exists_free (kvs : Tablet) (b : Bytes) {path : ℕ → Bytes}
    (h : Function.Injective path) : ∃ n, kvs.row b (path n) = none := by
  by_contra hall
  rw [not_exists] at hall
  exact Set.infinite_of_injective_forall_mem h hall (finite_row kvs b)

theorem parenthesized_injective : Function.Injective parenthesized := by
  intro i j h
  exact decimal_injective (List.append_cancel_left (List.append_cancel_right h))

/-- **A file that is moved finds a name.** -/
theorem freeTarget_ends (master : Master) (kvs : Tablet) (b folder base ext path : Bytes) :
    ∃ fuel v, (freeTarget b folder base ext fuel 1 path).run (Call.exec master) kvs =
      (.ok v, kvs) := by
  have hinj : Function.Injective fun n =>
      inFolder folder (base ++ parenthesized (n + 1) ++ ext) := by
    intro i j h
    have h' := List.append_cancel_left (List.append_cancel_right (inFolder_inj h))
    exact Nat.succ.inj (parenthesized_injective h')
  obtain ⟨n, hn⟩ := exists_free kvs b hinj
  -- the search stops at that name at the latest
  have hsearch : ∀ d i path, kvs.row b (inFolder folder (base ++ parenthesized (i + d) ++ ext)) =
      none → ∃ fuel v, (freeTarget b folder base ext fuel i path).run (Call.exec master) kvs =
        (.ok v, kvs) := by
    intro d
    induction d with
    | zero =>
      intro i path hfree
      have hstop : ¬(kvs.text b (inFolder folder (base ++ parenthesized i ++ ext)) = kvFile ∨
          kvs.text b (inFolder folder (base ++ parenthesized i ++ ext)) = kvFolder) := by
        rw [Tablet.text_eq_iff isErr_kvFile, Tablet.text_eq_iff isErr_kvFolder]
        rw [Nat.add_zero] at hfree
        rw [hfree]
        simp
      refine ⟨2, ?_⟩
      rw [freeTarget, run_Get_bind]
      split_ifs
      · refine ⟨inFolder folder (base ++ parenthesized i ++ ext), ?_⟩
        rw [freeTarget, run_Get_bind, if_neg hstop]
        rfl
      · exact ⟨_, rfl⟩
    | succ d ih =>
      intro i path hfree
      obtain ⟨fuel, v, hv⟩ := ih (i + 1) (inFolder folder (base ++ parenthesized i ++ ext))
        (by rw [Nat.add_right_comm]; exact hfree)
      refine ⟨fuel + 1, ?_⟩
      rw [freeTarget, run_Get_bind]
      split_ifs
      · exact ⟨v, hv⟩
      · exact ⟨_, rfl⟩
  exact hsearch n 1 path (by rw [Nat.add_comm]; exact hn)

/-- **An upload finds a name**, if its path has a dot. -/
theorem freeUpload_ends (master : Master) (kvs : Tablet) (b : Bytes) {path : Bytes}
    (hdot : 46 ∈ path) :
    ∃ fuel j, (freeUpload b path fuel 1).run (Call.exec master) kvs = (.ok j, kvs) := by
  have hinj : Function.Injective fun n => variantPath path (n + 1) := by
    intro i j h
    have h' := List.append_cancel_left (List.append_cancel_right h)
    exact Nat.succ.inj (parenthesized_injective h')
  obtain ⟨n, hn⟩ := exists_free kvs b hinj
  have hsearch : ∀ d i, kvs.row b (variantPath path (i + d)) = none →
      ∃ fuel j, (freeUpload b path fuel i).run (Call.exec master) kvs = (.ok j, kvs) := by
    intro d
    induction d with
    | zero =>
      intro i hfree
      have hstop : kvs.text b (variantPath path i) ≠ kvFile := by
        rw [Ne, Tablet.text_eq_iff isErr_kvFile]
        rw [Nat.add_zero] at hfree
        simp [hfree]
      refine ⟨1, i, ?_⟩
      rw [freeUpload, if_neg (not_not.mpr hdot), run_Get_bind, if_neg hstop]
      rfl
    | succ d ih =>
      intro i hfree
      obtain ⟨fuel, j, hj⟩ := ih (i + 1) (by rw [Nat.add_right_comm]; exact hfree)
      refine ⟨fuel + 1, ?_⟩
      rw [freeUpload, if_neg (not_not.mpr hdot), run_Get_bind]
      split_ifs
      · exact ⟨j, hj⟩
      · exact ⟨i, rfl⟩
  exact hsearch n 1 (by rw [Nat.add_comm]; exact hn)

/-! ### Deleting -/

/-- The columns that say they are folders. -/
def folderColumns (kvs : Tablet) (b : Bytes) : Set Bytes := {c | kvs.row b c = some kvFolder}

theorem finite_folderColumns (kvs : Tablet) (b : Bytes) : (folderColumns kvs b).Finite :=
  (finite_row kvs b).subset fun _ hc => by simp [show kvs.row b _ = some kvFolder from hc]

/-- A call that makes no folder. -/
def Call.MakesNoFolder : Call → Prop
  | .update (.put _ _ value) => value ≠ kvFolder
  | .update (.cput _ _ _ _) => False
  | _ => True

theorem Call.MakesNoFolder.folderColumns_exec {c : Call} (h : c.MakesNoFolder) (master : Master) :
    folderColumns (Call.exec master c kvs).2 b ⊆ folderColumns kvs b := by
  intro p hp
  rcases c with key | ⟨row, column⟩ | u
  · exact hp
  · exact hp
  · rcases Call.cells_exec master kvs (.update u) with heq | ⟨u', hu, heq⟩
    · exact (congrFun heq (b, p)).symm.trans hp
    · obtain rfl := Call.update.inj hu
      have hcell : (Call.exec master (.update u) kvs).2.cells (b, p) = some kvFolder := hp
      rw [heq] at hcell
      by_cases hkey : (b, p) = u.cell
      · rw [hkey, Function.update_self] at hcell
        rcases u with ⟨r, c, v⟩ | ⟨r, c, v, w⟩ | ⟨r, c⟩
        · exact absurd (Option.some.inj hcell) h
        · exact absurd h not_false
        · exact absurd hcell (by simp [Update.result])
      · rw [Function.update_of_ne hkey] at hcell
        exact hcell

theorem makesNoFolder_deleteChunks (absPath : Bytes) :
    (deleteChunks b absPath).Uses Call.MakesNoFolder := by
  refine .ask_bind trivial fun fileMeta => ?_
  split
  · refine .bind (.each fun chunk _ => .ask_bind trivial fun _ => trivial) fun _ => ?_
    exact .ask_bind trivial fun _ => trivial
  · exact trivial

theorem makesNoFolder_deleteRec (fuel : ℕ) (path : Bytes) :
    (deleteRec b fuel path).Uses Call.MakesNoFolder := by
  induction fuel generalizing path with
  | zero => exact trivial
  | succ fuel ih =>
    rw [deleteRec]
    refine .ask_bind trivial fun marker => ?_
    split
    · refine (makesNoFolder_deleteChunks path).bind fun _ => ?_
      exact .ask_bind trivial fun _ => .ask_bind trivial fun _ => trivial
    · refine .ask_bind (by rw [Call.MakesNoFolder]; decide) fun _ => ?_
      refine .ask_bind trivial fun children => .ask_bind trivial fun _ => ?_
      split
      · exact .each fun child _ => ih child
      · exact trivial

theorem folderColumns_deleteRec (fuel : ℕ) (path : Bytes) :
    folderColumns ((deleteRec b fuel path).run (Call.exec master) kvs).2 b ⊆
      folderColumns kvs b :=
  (makesNoFolder_deleteRec fuel path).run (P := fun t => folderColumns t b ⊆ folderColumns kvs b)
    (Call.exec master) (fun _ _ hc ht => (hc.folderColumns_exec master).trans ht) subset_rfl

/-- A folder that is deleted is no folder any more. -/
theorem folderColumns_marked {path : Bytes} (h : kvs.row b path = some kvFolder) :
    (folderColumns ((kvs.put b path delKvFolder).delete b (path ++ ascii "-metadata")) b).ncard <
      (folderColumns kvs b).ncard := by
  have hput : (Call.update (.put b path delKvFolder)).MakesNoFolder := by
    rw [Call.MakesNoFolder]
    decide
  have hdelete : (Call.update (.delete b (path ++ ascii "-metadata"))).MakesNoFolder := trivial
  refine Set.ncard_lt_ncard ((Set.ssubset_iff_of_subset ?_).mpr ⟨path, h, ?_⟩)
    (finite_folderColumns kvs b)
  · exact (hdelete.folderColumns_exec Master.first).trans (hput.folderColumns_exec Master.first)
  · have hne : path ≠ path ++ ascii "-metadata" := by simp [ascii]
    rw [folderColumns, Set.mem_ofPred_eq, Tablet.row_delete, Function.update_of_ne hne,
      Tablet.row_put, Function.update_self]
    decide

/-- **Deleting comes to an end**, whatever the listings say. -/
theorem ends_deleteRec {fuel : ℕ} {path : Bytes} (h : (folderColumns kvs b).ncard < fuel) :
    (deleteRec b fuel path).Ends (Call.exec master) kvs := by
  induction fuel generalizing path kvs with
  | zero => exact absurd h (Nat.not_lt_zero _)
  | succ fuel ih =>
    rw [deleteRec, ends_Get_bind]
    split_ifs with hmarker
    · refine (Prog.Total.bind (total_deleteChunks path) fun _ => ?_).ends kvs
      exact .ask_bind fun _ => .ask_bind fun _ => trivial
    · rw [ends_Put_bind, ends_Get_bind, ends_Delete_bind]
      split_ifs
      · -- the folder itself has been marked, so there is one less
        have hmarked : (folderColumns ((kvs.put b path delKvFolder).delete b
            (path ++ ascii "-metadata")) b).ncard < fuel := by
          rw [not_not, Tablet.text_eq_iff isErr_kvFolder] at hmarker
          exact Nat.lt_of_lt_of_le (folderColumns_marked hmarker) (Nat.le_of_lt_succ h)
        refine Prog.ends_each (I := fun t => (folderColumns t b).ncard < fuel) ?_ hmarked _
        intro child t ht
        refine ⟨ih ht, Nat.lt_of_le_of_lt ?_ ht⟩
        exact Set.ncard_le_ncard (folderColumns_deleteRec fuel child) (finite_folderColumns t b)
      · exact Prog.ends_pure _ _

/-! ### Moving a file -/

/-- The names on the list of chunks of a file, if it can be read, are as long as the path
of the file at least. -/
def ChunksFit (R : Row) (path : Bytes) : Prop :=
  ∀ v, R (path ++ ascii "-metadata") = some v → v ≠ [] → isErr v = false →
    ∀ chunk ∈ splitStringStorage v, path.length ≤ chunk.length

theorem ends_moveChunks {old new : Bytes} {chunks : List Bytes} :
    (moveChunks b old new chunks).Ends (Call.exec master) kvs ↔
      ∀ chunk ∈ chunks, old.length ≤ chunk.length := by
  induction chunks generalizing kvs with
  | nil => exact ⟨fun _ _ h => absurd h List.not_mem_nil, fun _ => Prog.ends_pure _ _⟩
  | cons chunk chunks ih =>
    rw [moveChunks, List.forall_mem_cons]
    split_ifs with hlen
    · refine ⟨fun h => absurd h (Prog.not_ends_fail _ _), fun h => ?_⟩
      exact absurd h.1 (Nat.not_le.mpr hlen)
    · rw [ends_Get_bind, ends_Put_bind, ends_Delete_bind,
        Prog.ends_bind_total fun _ => .pure _, ih]
      exact (and_iff_right (Nat.not_lt.mp hlen)).symm

theorem ends_moveContent {old new : Bytes} :
    (moveContent b old new).Ends (Call.exec master) kvs ↔ ChunksFit (kvs.row b) old := by
  rw [moveContent, ends_Get_bind]
  split_ifs with hlist
  · refine (Prog.ends_bind_total fun _ => ?_).trans (ends_moveChunks.trans ?_)
    · exact .ask_bind fun _ => .ask_bind fun _ => trivial
    have hrow := (Tablet.text_eq_iff hlist.2).mp rfl
    constructor
    · intro h v hv _ _
      rw [hrow] at hv
      exact Option.some.inj hv ▸ h
    · exact fun h => h _ hrow hlist.1 hlist.2
  · refine ⟨fun _ v hv hne hread => absurd ?_ hlist, fun _ => ?_⟩
    · rw [Tablet.text_of_row hv]
      exact ⟨hne, hread⟩
    · refine Prog.Total.ends ?_ kvs
      exact .ask_bind fun _ => .ask_bind fun _ => .ask_bind fun _ => trivial

/-- **A file can be moved** when the names of its chunks are long enough. -/
theorem ends_relocateFile {old new : Bytes} :
    (relocateFile b old new).Ends (Call.exec master) kvs ↔ ChunksFit (kvs.row b) old := by
  refine (Prog.ends_bind_total fun _ => ?_).trans ends_moveContent
  exact .ask_bind fun _ => .ask_bind fun _ => trivial

/-! ### Handlers that answer under a condition -/

theorem ends_webStorageDelete (master : Master) (kvs : Tablet) (b path : Bytes) :
    ∃ fuel, (webStorageDelete b fuel path).Ends (Call.exec master) kvs := by
  -- the parent's listing is written first
  have hrest : ∀ fuel, (webStorageDelete b fuel path).Ends (Call.exec master) kvs ↔
      (Reached master b → (deleteRec b fuel path).Ends (Call.exec master)
        (kvs.put b (metaCol (beforeLast 47 path)) (joinStorage ((splitStringStorage
          (kvs.text b (metaCol (beforeLast 47 path)))).filter fun it =>
            (cut (afterLast 47 path) it).isNone)))) := fun fuel => by
    rw [webStorageDelete, ends_onWorker]
    refine imp_congr_right fun _ => ?_
    rw [ends_Get_bind, ends_Put_bind]
    exact Prog.ends_bind_total fun _ => .ask_bind fun _ => .pure _
  exact ⟨_, (hrest _).mpr fun _ => ends_deleteRec (Nat.lt_succ_self _)⟩

/-- An upload answers unless it has to find a name and has no place for a number. -/
theorem ends_webStorageUpload {folder filename fileData : Bytes} :
    (∃ fuel, (webStorageUpload b fuel folder filename fileData).Ends (Call.exec master) kvs) ↔
      (Reached master b → isValidName filename = true →
        kvs.row b (inFolder folder filename) = some kvFile → 46 ∈ inFolder folder filename) := by
  have hstore : ∀ (filename path : Bytes) (s : Tablet),
      (storeUpload b folder filename path fileData).Ends (Call.exec master) s :=
    fun _ _ s => (total_storeUpload _ _ _ _).ends s
  constructor
  · rintro ⟨fuel, h⟩ hreached hname hfile
    have hrun := ends_onWorker.mp h hreached
    rw [if_neg (by simp [hname]), ends_Get_bind, if_pos (Tablet.text_of_row hfile)] at hrun
    obtain ⟨i, s, hi, -⟩ := Prog.ends_bind.mp hrun
    exact (run_freeUpload hi).2.1
  · intro h
    by_cases hfile : kvs.row b (inFolder folder filename) = some kvFile
    · by_cases hnamed : Reached master b ∧ isValidName filename = true
      · obtain ⟨fuel, i, hi⟩ := freeUpload_ends master kvs b (h hnamed.1 hnamed.2 hfile)
        refine ⟨fuel, ends_onWorker.mpr fun _ => ?_⟩
        rw [if_neg (by simp [hnamed.2]), ends_Get_bind, if_pos (Tablet.text_of_row hfile),
          Prog.ends_bind_of_ok hi]
        exact hstore _ _ _
      · refine ⟨0, ends_onWorker.mpr fun hreached => ?_⟩
        have hname : isValidName filename = false :=
          Bool.eq_false_iff.mpr fun hname => hnamed ⟨hreached, hname⟩
        rw [if_pos hname]
        exact Prog.ends_pure _ _
    · refine ⟨0, ends_onWorker.mpr fun _ => ?_⟩
      split_ifs
      · exact Prog.ends_pure _ _
      · rw [ends_Get_bind, if_neg fun heq => hfile ((Tablet.text_eq_iff isErr_kvFile).mp heq)]
        exact hstore _ _ _

/-- A file is renamed, unless `substr` throws at the name of a chunk. -/
theorem ends_webStorageRenameFile {folder oldName newName : Bytes} :
    (webStorageRenameFile b folder oldName newName).Ends (Call.exec master) kvs ↔
      (Reached master b → isValidName newName = true →
        kvs.row b (inFolder folder (ensureSameExtension oldName newName)) ≠ some kvFile →
          ChunksFit (kvs.row b) (inFolder folder oldName)) := by
  rw [webStorageRenameFile, ends_onWorker]
  refine imp_congr_right fun _ => ?_
  by_cases hname : isValidName newName = false
  · rw [if_pos hname]
    exact iff_of_true (Prog.ends_pure _ _) fun h => absurd (hname.symm.trans h) Bool.false_ne_true
  · rw [if_neg hname, ends_Get_bind, forall_prop_of_true (Bool.eq_true_of_not_eq_false hname),
      Ne, ← Tablet.text_eq_iff isErr_kvFile]
    split_ifs with hfile
    · exact iff_of_true (Prog.ends_pure _ _) fun h => absurd hfile h
    · rw [forall_prop_of_true hfile, ← @ends_relocateFile master]
      exact Prog.ends_bind_total fun _ => .ask_bind fun _ => .ask_bind fun _ => .pure _

/-- So is one that is moved, since the loop for its name comes to an end. -/
theorem ends_webStorageMoveFile {sourceFolder filename targetFolder : Bytes} :
    (∃ fuel, (webStorageMoveFile b fuel sourceFolder filename targetFolder).Ends
        (Call.exec master) kvs) ↔
      (Reached master b → filename ≠ [] →
        ChunksFit (kvs.row b) (inFolder sourceFolder filename)) := by
  have hmove : ∀ (v : Bytes) (s : Tablet),
      (relocateFile b (inFolder sourceFolder filename) v).Ends (Call.exec master) s ↔
        ChunksFit (s.row b) (inFolder sourceFolder filename) := fun _ _ => ends_relocateFile
  constructor
  · rintro ⟨fuel, h⟩ hreached hne
    have hrun := ends_onWorker.mp h hreached
    rw [if_neg hne] at hrun
    obtain ⟨path, s, hpath, -⟩ := Prog.ends_bind.mp hrun
    rw [moveFile] at hpath
    obtain ⟨v, t, hv, hrest⟩ := Prog.run_bind_ok _ hpath
    have ht : t = kvs := by
      rw [← (reads_freeTarget _ _ _ _ _ _).run_eq (Call.exec master)
        (fun c s hc => hc.exec_eq) kvs, hv]
    obtain ⟨u, w, hu, -⟩ := Prog.run_bind_ok _ hrest
    rw [← ht, ← hmove v]
    exact ⟨u, by rw [hu]⟩
  · intro h
    obtain ⟨fuel, v, hv⟩ := freeTarget_ends master kvs b targetFolder
      (leafBase (afterLast 47 (inFolder sourceFolder filename)))
      (leafExt (afterLast 47 (inFolder sourceFolder filename)))
      (inFolder targetFolder (afterLast 47 (inFolder sourceFolder filename)))
    refine ⟨fuel, ends_onWorker.mpr fun hreached => ?_⟩
    split_ifs with hne
    · exact Prog.ends_pure _ _
    · refine (Prog.ends_bind_total fun _ => .pure _).mpr ?_
      rw [moveFile, Prog.ends_bind_of_ok hv]
      refine (Prog.ends_bind_total fun _ => ?_).mpr ((hmove v kvs).mpr (h hreached hne))
      exact .ask_bind fun _ => .ask_bind fun _ => (total_removeEntry _ _).bind fun _ => .pure _

end PennCloud
