import PennCloud.Frontend.Storage.Collisions
import PennCloud.Frontend.Storage.Listing

/-!
# What an answered request has done

For each handler that writes, what its answer says about the row it leaves. Either
the request was refused, and then nothing has changed, or the handler has gone to
its end, and the row is the one before with a few columns changed: the marker of
the item, a listing or two, and what belongs to the content of files.

The columns that contents are kept in end in `-content`
(`PennCloud.IsContent`) and are neither markers nor listings. Where a list of
chunks names the wrong chunks, a file that is moved or deleted takes away the
content of another one, but no item is lost by it and no listing changed
(`PennCloud.row_relocateFile`).
-/

namespace PennCloud

open Wire Calls Text

/-! ### Listings and markers -/

section Columns

variable {folder folder' c p n : Bytes}

/-- The listing of a folder is no marker, an item `metadata` at the root apart. -/
theorem metaCol_ne (hc : 45 ∉ c) (h : folder = [] → c ≠ ascii "metadata") :
    metaCol folder ≠ c := by
  rw [metaCol]
  split_ifs with hroot
  · exact (h hroot).symm
  · rintro rfl
    exact hc (List.mem_append_right _ (by decide))

/-- It is no other item's list. -/
theorem metaCol_ne_metadata (h : folder ≠ p) : metaCol folder ≠ p ++ ascii "-metadata" := by
  rw [metaCol]
  split_ifs
  · intro heq
    have hmem : (45 : UInt8) ∈ ascii "metadata" := heq ▸ List.mem_append_right p (by decide)
    exact absurd hmem (by decide)
  · exact fun heq => h (List.append_cancel_right heq)

theorem metaCol_inj (h : metaCol folder = metaCol folder') : folder = folder' := by
  by_contra hne
  by_cases hf : folder' = []
  · have hfolder : folder ≠ [] := fun h' => hne (h'.trans hf.symm)
    rw [metaCol, metaCol, if_neg hfolder, if_pos hf] at h
    have hmem : (45 : UInt8) ∈ ascii "metadata" := h ▸ List.mem_append_right folder (by decide)
    exact absurd hmem (by decide)
  · refine metaCol_ne_metadata hne (h.trans ?_)
    rw [metaCol, if_neg hf]

theorem inFolder_ne_folder (hn : n ≠ []) : inFolder folder n ≠ folder := by
  rw [inFolder]
  split_ifs with h
  · rw [h]
    exact hn
  · intro heq
    exact absurd (List.append_right_eq_self.mp heq) (by simp)

theorem inFolder_inj {n' : Bytes} (h : inFolder folder n = inFolder folder n') : n = n' := by
  rw [inFolder, inFolder] at h
  split_ifs at h
  · exact h
  · exact (List.cons.inj (List.append_cancel_left h)).2

/-- A path is not a list. -/
theorem ne_metadata_of_notMem (hc : 45 ∉ c) : c ≠ p ++ ascii "-metadata" := by
  rintro rfl
  exact hc (List.mem_append_right p (by decide))

theorem inFolder_ne_nil (hn : n ≠ []) : inFolder folder n ≠ [] := by
  rw [inFolder]
  split_ifs
  · exact hn
  · simp

theorem metaCol_ne_self : metaCol folder ≠ folder := by
  rw [metaCol]
  split_ifs with h
  · rw [h]
    decide
  · exact fun heq => absurd (List.append_right_eq_self.mp heq) (by decide)

/-- Only at the root is there an item `metadata` that is not in a folder. -/
theorem eq_nil_of_inFolder (h : inFolder folder n = ascii "metadata") :
    folder = [] ∧ n = ascii "metadata" := by
  rw [inFolder] at h
  split_ifs at h with hroot
  · exact ⟨hroot, h⟩
  · have hmem : (47 : UInt8) ∈ ascii "metadata" := h ▸ List.mem_append_right folder
      List.mem_cons_self
    exact absurd hmem (by decide)

end Columns

/-! ### Columns of contents -/

/-- A column that a content is kept in. -/
def IsContent (c : Bytes) : Prop := ascii "-content" <:+ c

theorem isContent_append (t : Bytes) : IsContent (t ++ ascii "-content") := List.suffix_append t _

theorem IsContent.mem {c : Bytes} (h : IsContent c) : 45 ∈ c :=
  h.subset (by decide)

/-- A listing is not a content. -/
theorem not_isContent_metadata (t : Bytes) : ¬IsContent (t ++ ascii "-metadata") := by
  rintro ⟨s, h⟩
  have h1 := congrArg List.getLast? h
  have hc : (ascii "-content").getLast? = some 116 := by decide
  have hm : (ascii "-metadata").getLast? = some 97 := by decide
  rw [List.getLast?_append, List.getLast?_append, hc, hm, Option.some_or, Option.some_or] at h1
  exact absurd h1 (by decide)

theorem not_isContent_metaCol (folder : Bytes) : ¬IsContent (metaCol folder) := by
  rw [metaCol]
  split_ifs
  · exact fun h => absurd h.mem (by decide)
  · exact not_isContent_metadata folder

theorem IsPath.not_isContent {p : Bytes} (h : IsPath p) : ¬IsContent p := fun hc =>
  h.notMem_dash hc.mem

/-- Two rows with the same items and listings, but for the columns `X`. -/
def KeepsBut (X : Bytes → Prop) (R R' : Row) : Prop := ∀ c, ¬IsContent c → ¬X c → R' c = R c

section Effects

variable {b : Bytes} {master : Master} {kvs s : Tablet}

/-! ### Files that are moved -/

theorem writes_moveChunks_content {old new : Bytes} (chunks : List Bytes) :
    Writes b IsContent (moveChunks b old new chunks) := by
  induction chunks with
  | nil => exact trivial
  | cons chunk chunks ih =>
    rw [moveChunks]
    exact Writes.ite (fun _ => trivial) fun _ => Writes.get fun _ =>
      Writes.put (isContent_append _) fun _ => Writes.delete (isContent_append _) fun _ =>
        ih.bind fun _ => trivial

theorem writes_moveContent {old new : Bytes} :
    Writes b (fun c => c = old ++ ascii "-metadata" ∨ c = new ++ ascii "-metadata" ∨ IsContent c)
      (moveContent b old new) := by
  rw [moveContent]
  refine Writes.get fun _ => Writes.ite (fun _ => ?_) fun _ => ?_
  · exact ((writes_moveChunks_content _).mono fun _ hc => Or.inr (Or.inr hc)).bind fun _ =>
      Writes.put (Or.inr (Or.inl rfl)) fun _ => Writes.delete (Or.inl rfl) fun _ => trivial
  · exact Writes.get fun _ => Writes.put (Or.inr (Or.inr (isContent_append _))) fun _ =>
      Writes.delete (Or.inr (Or.inr (isContent_append _))) fun _ => trivial

/-- **A file that was moved**: the marker is under the new path and not under the old
one, and no other item or listing has changed. -/
theorem row_relocateFile {old new : Bytes}
    (h : (relocateFile b old new).run (Call.exec master) kvs = (.ok (), s)) :
    ∃ R : Row, s.row b = Function.update (Function.update R new (some kvFile)) old none ∧
      KeepsBut (fun c => c = old ++ ascii "-metadata" ∨ c = new ++ ascii "-metadata")
        (kvs.row b) R := by
  rw [relocateFile] at h
  obtain ⟨_, t, ht, hrest⟩ := Prog.run_bind_ok _ h
  rw [run_Put_bind, run_Delete_bind] at hrest
  obtain ⟨-, rfl⟩ := Prod.mk.inj hrest
  refine ⟨t.row b, by rw [Tablet.row_delete, Tablet.row_put], fun c hc hX => ?_⟩
  obtain ⟨hX1, hX2⟩ := not_or.mp hX
  have hrow := (@writes_moveContent b old new).row_eq master kvs
    (not_or.mpr ⟨hX1, not_or.mpr ⟨hX2, hc⟩⟩)
  rw [ht] at hrow
  exact hrow

section Moved

variable {old new : Bytes}
  (h : (relocateFile b old new).run (Call.exec master) kvs = (.ok (), s))
include h

theorem relocateFile_new (hne : new ≠ old) : s.row b new = some kvFile := by
  obtain ⟨R, hrow, -⟩ := row_relocateFile h
  rw [hrow, Function.update_of_ne hne, Function.update_self]

theorem relocateFile_old : s.row b old = none := by
  obtain ⟨R, hrow, -⟩ := row_relocateFile h
  rw [hrow, Function.update_self]

/-- The other markers are as before. -/
theorem relocateFile_marker {c : Bytes} (hc : 45 ∉ c) (hold : c ≠ old) (hnew : c ≠ new) :
    s.row b c = kvs.row b c := by
  obtain ⟨R, hrow, hkeeps⟩ := row_relocateFile h
  rw [hrow, Function.update_of_ne hold, Function.update_of_ne hnew]
  exact hkeeps c (fun hcon => hc hcon.mem)
    (not_or.mpr ⟨ne_metadata_of_notMem hc, ne_metadata_of_notMem hc⟩)

/-- So are the listings. -/
theorem relocateFile_listing {folder : Bytes} (hold : folder ≠ old) (hnew : folder ≠ new)
    (hold' : metaCol folder ≠ old) (hnew' : metaCol folder ≠ new) :
    s.row b (metaCol folder) = kvs.row b (metaCol folder) := by
  obtain ⟨R, hrow, hkeeps⟩ := row_relocateFile h
  rw [hrow, Function.update_of_ne hold', Function.update_of_ne hnew']
  exact hkeeps _ (not_isContent_metaCol folder)
    (not_or.mpr ⟨metaCol_ne_metadata hold, metaCol_ne_metadata hnew⟩)

/-- So is everything that is neither at the old path nor at the new one. -/
theorem relocateFile_outside {c : Bytes} (hc : ¬IsContent c) (hold : ¬Under old c)
    (hnew : ¬Under new c) : s.row b c = kvs.row b c := by
  obtain ⟨R, hrow, hkeeps⟩ := row_relocateFile h
  rw [hrow, Function.update_of_ne (ne_of_not_under hold (Under.refl old)),
    Function.update_of_ne (ne_of_not_under hnew (Under.refl new))]
  exact hkeeps c hc (not_or.mpr ⟨ne_of_not_under hold (under_metadata old),
    ne_of_not_under hnew (under_metadata new)⟩)

end Moved

/-! ### Listings that are changed -/

/-- **A `CPut` of what was just read** writes if there was something to read. -/
theorem row_cput_text {c new : Bytes} :
    (Call.exec master (.update (.cput b c (kvs.text b c) new)) kvs).2.row b =
      Function.update (kvs.row b) c ((kvs.row b c).map fun _ => new) := by
  rcases hrow : kvs.row b c with _ | v
  · have hne : kvs.cells (b, c) ≠ some (kvs.text b c) := by
      rw [show kvs.cells (b, c) = none from hrow]
      simp
    rw [Call.exec_cput_of_ne master kvs hne, Option.map_none, ← hrow, Function.update_eq_self]
  · have heq : kvs.cells (b, c) = some (kvs.text b c) := by
      rw [Tablet.text_of_row hrow]
      exact hrow
    funext c'
    rw [Tablet.row, Call.cells_exec_cput_of_eq master kvs heq]
    by_cases hc : c' = c
    · rw [hc, Function.update_self, Function.update_self]
      rfl
    · rw [Function.update_of_ne hc, Function.update_of_ne fun h => hc (Prod.mk.inj h).2]
      rfl

/-- The entries that are left when one is taken off. -/
def keptEntries (entry text : Bytes) : List Bytes :=
  (splitStringStorage text).filter fun item => item ≠ entry

theorem mem_keptEntries {entry text e : Bytes} :
    e ∈ keptEntries entry text ↔ e ∈ splitStringStorage text ∧ e ≠ entry := by
  rw [keptEntries, List.mem_filter, decide_eq_true_eq]

theorem run_removeEntry (folder entry : Bytes) :
    ∃ s : Tablet, (removeEntry b folder entry).run (Call.exec master) kvs = (.ok (), s) ∧
      s.row b = Function.update (kvs.row b) (metaCol folder)
        (if keptEntries entry (kvs.text b (metaCol folder)) = [] then none
          else some (joinStorage (keptEntries entry (kvs.text b (metaCol folder))))) := by
  have hrun : (removeEntry b folder entry).run (Call.exec master) kvs =
      (if keptEntries entry (kvs.text b (metaCol folder)) = [] then
        Delete b (metaCol folder) >>= fun _ => pure ()
      else Put b (metaCol folder) (joinStorage (keptEntries entry
        (kvs.text b (metaCol folder)))) >>= fun _ => pure ()).run (Call.exec master) kvs := rfl
  rw [hrun]
  split_ifs
  · exact ⟨_, rfl, Tablet.row_delete⟩
  · exact ⟨_, rfl, Tablet.row_put _⟩

theorem removeEntry_of_ne {folder entry c : Bytes} (hc : c ≠ metaCol folder)
    (h : (removeEntry b folder entry).run (Call.exec master) kvs = (.ok (), s)) :
    s.row b c = kvs.row b c := by
  obtain ⟨t, ht, hrow⟩ := @run_removeEntry b master kvs folder entry
  obtain ⟨-, rfl⟩ := Prod.mk.inj (ht.symm.trans h)
  rw [hrow, Function.update_of_ne hc]

/-! ### Uploads -/

theorem run_storeChunks (path : Bytes) (rounds i : ℕ) (rest : Bytes) :
    ∃ s : Tablet, (storeChunks b path rounds i rest).run (Call.exec master) kvs = (.ok (), s) ∧
      KeepsBut (fun c => c = path ++ ascii "-metadata") (kvs.row b) (s.row b) := by
  induction rounds generalizing i rest kvs with
  | zero => exact ⟨kvs, rfl, fun _ _ _ => rfl⟩
  | succ rounds ih =>
    rw [storeChunks]
    split_ifs
    · exact ⟨kvs, rfl, fun _ _ _ => rfl⟩
    · rw [run_Get_bind, run_Put_bind, run_Put_bind]
      obtain ⟨s, hs, hrow⟩ := @ih _ (i + 1) (rest.drop chunkSize)
      refine ⟨s, hs, fun c hc hX => ?_⟩
      have hne : c ≠ path ++ ascii "-" ++ decimal i ++ ascii "-content" := by
        rintro rfl
        exact hc (isContent_append _)
      rw [hrow c hc hX, Tablet.row_put, Tablet.row_put, Function.update_of_ne hne,
        Function.update_of_ne hX]

/-- **A file that is stored**: its marker, and the listing of the folder if there is
one. -/
theorem run_storeUpload {folder filename path fileData : Bytes} (hpath : 45 ∉ path)
    (hmeta : ¬ColumnOf path (metaCol folder)) :
    ∃ s : Tablet, (storeUpload b folder filename path fileData).run (Call.exec master) kvs =
        (.ok (.ok (.uploaded filename folder path)), s) ∧
      s.row b path = some kvFile ∧
      s.row b (metaCol folder) =
        (kvs.row b (metaCol folder)).map (fun v => withUpload v filename path) ∧
      KeepsBut (fun c => c = path ∨ c = path ++ ascii "-metadata" ∨ c = metaCol folder)
        (kvs.row b) (s.row b) := by
  obtain ⟨t, ht, hkeeps⟩ := @run_storeChunks b master (kvs.put b path kvFile) path
    (storedPart fileData).length 1 (storedPart fileData)
  have hne : metaCol folder ≠ path := fun heq => hmeta (heq ▸ ColumnOf.refl _)
  have hne' : metaCol folder ≠ path ++ ascii "-metadata" := fun heq =>
    hmeta (heq ▸ columnOf_metadata _)
  have hrow : t.row b (metaCol folder) = kvs.row b (metaCol folder) := by
    rw [hkeeps _ (not_isContent_metaCol folder) hne', Tablet.row_put, Function.update_of_ne hne]
  rw [storeUpload, run_Put_bind, Prog.run_bind_of_ok _ ht, run_Get_bind, run_CPut_bind]
  refine ⟨_, rfl, ?_, ?_, fun c hc hX => ?_⟩
  · have hself : path ≠ path ++ ascii "-metadata" := fun heq =>
      absurd (List.append_right_eq_self.mp heq.symm) (by decide)
    rw [row_cput_text, Function.update_of_ne hne.symm, hkeeps _ (fun h => hpath h.mem) hself,
      Tablet.row_put, Function.update_self]
  · rw [row_cput_text, Function.update_self, hrow]
    rcases hv : kvs.row b (metaCol folder) with _ | v
    · rfl
    · rw [Tablet.text_of_row (hrow.trans hv)]
      rfl
  · obtain ⟨hX1, hX'⟩ := not_or.mp hX
    obtain ⟨hX2, hX3⟩ := not_or.mp hX'
    rw [row_cput_text, Function.update_of_ne hX3, hkeeps c hc hX2, Tablet.row_put,
      Function.update_of_ne hX1]

/-- The same for a name in a folder, once the handler has answered. -/
theorem row_storeUpload {folder n filename fileData : Bytes} {a : Answer}
    (hfolder : IsFolderPath folder) (hn : isValidName n = true)
    (hmeta : inFolder folder n ≠ ascii "metadata")
    (h : (storeUpload b folder filename (inFolder folder n) fileData).run (Call.exec master) kvs =
      (.ok a, s)) :
    a = .ok (.uploaded filename folder (inFolder folder n)) ∧
      s.row b (inFolder folder n) = some kvFile ∧
      s.row b (metaCol folder) =
        (kvs.row b (metaCol folder)).map (fun v => withUpload v filename (inFolder folder n)) ∧
      KeepsBut (fun c => c = inFolder folder n ∨ c = inFolder folder n ++ ascii "-metadata" ∨
        c = metaCol folder) (kvs.row b) (s.row b) := by
  have hcol : ¬ColumnOf (inFolder folder n) (metaCol folder) := by
    refine fun hcol => not_under_metaCol (fun hroot heq => hmeta ?_) hcol.under
    rw [hroot, heq, inFolder_nil]
  obtain ⟨t, ht, hrows⟩ := @run_storeUpload b master kvs folder filename (inFolder folder n)
    fileData (IsPath.inFolder hfolder hn).notMem_dash hcol
  obtain ⟨ha, rfl⟩ := Prod.mk.inj (ht.symm.trans h)
  exact ⟨(Except.ok.inj ha).symm, hrows⟩

/-! ### The handlers -/

/-- An answer that is not a 200. -/
def Answer.Refused (a : Answer) : Prop := ∀ page, a ≠ .ok page

theorem refused_badRequest (text : Bytes) : (Answer.badRequest text).Refused := by
  intro page h
  cases h

theorem run_onWorker {h : Handler Answer} {a : Answer}
    (hrun : (onWorker b h).run (Call.exec master) kvs = (.ok a, s)) :
    (s = kvs ∧ a.Refused) ∨ h.run (Call.exec master) kvs = (.ok a, s) := by
  rw [onWorker, run_lookup_bind] at hrun
  split_ifs at hrun
  · obtain ⟨ha, rfl⟩ := Prod.mk.inj hrun
    refine Or.inl ⟨rfl, fun page heq => ?_⟩
    rw [heq] at ha
    cases ha
  · exact Or.inr hrun

/-- A handler that refuses has done nothing. -/
theorem refused_of_run {text : Bytes} {a : Answer}
    (h : (pure (Answer.badRequest text) : Handler Answer).run (Call.exec master) kvs = (.ok a, s)) :
    s = kvs ∧ a.Refused := by
  obtain ⟨ha, rfl⟩ := Prod.mk.inj h
  rw [← Except.ok.inj ha]
  exact ⟨rfl, refused_badRequest text⟩

/-- The row with a new folder put on a listing, unless its name is on it. -/
def Row.listed (R : Row) (folder text name path : Bytes) : Row :=
  if (splitStringStorage text).contains name then R
  else Function.update R (metaCol folder)
    (some (if text = [] then path else text ++ 44 :: path))

theorem Row.listed_of_mem {R : Row} {folder text name path : Bytes}
    (h : name ∈ splitStringStorage text) : R.listed folder text name path = R :=
  if_pos (List.contains_iff_mem.mpr h)

theorem Row.listed_of_notMem {R : Row} {folder text name path : Bytes}
    (h : name ∉ splitStringStorage text) : R.listed folder text name path =
      Function.update R (metaCol folder)
        (some (if text = [] then path else text ++ 44 :: path)) :=
  if_neg fun hmem => h (List.contains_iff_mem.mp hmem)

/-- The listing is then the same as after an upload. -/
theorem Row.listed_metaCol {R : Row} {folder text name path : Bytes} (hname : name ≠ [])
    (h : name ∈ splitStringStorage text → R (metaCol folder) = some text) :
    R.listed folder text name path (metaCol folder) = some (withUpload text name path) := by
  rw [withUpload]
  by_cases hnil : text = []
  · have hmem : name ∉ splitStringStorage text := by simpa [hnil, splitStringStorage] using hname
    rw [Row.listed_of_notMem hmem, if_pos hnil, if_pos hnil, Function.update_self]
  · rw [if_neg hnil]
    split_ifs with hmem
    · rw [Row.listed_of_mem hmem, h hmem]
    · rw [Row.listed_of_notMem hmem, if_neg hnil, Function.update_self]

theorem Row.listed_of_ne {R : Row} {folder text name path c : Bytes} (h : c ≠ metaCol folder) :
    R.listed folder text name path c = R c := by
  by_cases hmem : name ∈ splitStringStorage text
  · rw [Row.listed_of_mem hmem]
  · rw [Row.listed_of_notMem hmem, Function.update_of_ne h]

theorem run_makeFolder (parent name path : Bytes) :
    (makeFolder b parent name path).run (Call.exec master) kvs =
      (.ok (.ok (.folderCreated name parent path)),
        (kvs.put b path kvFolder).put b (path ++ ascii "-metadata") []) := rfl

/-- **A folder that was created.** -/
theorem run_createFolder {parent name : Bytes} {a : Answer}
    (h : (webStorageCreateFolder b parent name).run (Call.exec master) kvs = (.ok a, s)) :
    (s = kvs ∧ a.Refused) ∨ a = .ok (.folderCreated name parent (inFolder parent name)) ∧
      ¬Live (kvs.row b) (inFolder parent name) ∧
      s.row b = Function.update (Function.update
        ((kvs.row b).listed parent (kvs.text b (metaCol parent)) name (inFolder parent name))
        (inFolder parent name) (some kvFolder)) (inFolder parent name ++ ascii "-metadata")
        (some []) := by
  rcases run_onWorker h with hleft | hrun
  · exact Or.inl hleft
  · split_ifs at hrun
    · exact Or.inl (refused_of_run hrun)
    · rw [run_Get_bind] at hrun
      split_ifs at hrun with htaken
      · exact Or.inl (refused_of_run hrun)
      · have hfree : ¬Live (kvs.row b) (inFolder parent name) := by
          rintro (hlive | hlive) <;> rw [Tablet.text_of_row hlive] at htaken <;>
            exact absurd htaken (by decide)
        rw [run_Get_bind] at hrun
        refine Or.inr ?_
        by_cases hmem : name ∈ splitStringStorage (kvs.text b (metaCol parent))
        · rw [if_pos hmem, run_makeFolder] at hrun
          rw [Row.listed_of_mem hmem]
          obtain ⟨ha, rfl⟩ := Prod.mk.inj hrun
          exact ⟨(Except.ok.inj ha).symm, hfree, by rw [Tablet.row_put, Tablet.row_put]⟩
        · rw [if_neg hmem, run_Put_bind, run_makeFolder] at hrun
          rw [Row.listed_of_notMem hmem]
          obtain ⟨ha, rfl⟩ := Prod.mk.inj hrun
          exact ⟨(Except.ok.inj ha).symm, hfree, by
            rw [Tablet.row_put, Tablet.row_put, Tablet.row_put]⟩

/-- The name a file is uploaded under and the path it is stored at. -/
def UploadsAs (R : Row) (folder filename fname v : Bytes) : Prop :=
  (R (inFolder folder filename) ≠ some kvFile ∧ fname = filename ∧ v = inFolder folder filename) ∨
    (R (inFolder folder filename) = some kvFile ∧ 46 ∈ inFolder folder filename ∧
      ∃ i, fname = filename ++ parenthesized i ∧ v = variantPath (inFolder folder filename) i ∧
        R v ≠ some kvFile ∧
        ∀ n, 1 ≤ n → n < i → R (variantPath (inFolder folder filename) n) = some kvFile)

/-- Where the number goes behind a name in the same folder, the path is a name in the
folder, and it is listed when the name the handler looks for is. -/
theorem UploadsAs.exists_name {R : Row} {folder filename fname v : Bytes}
    (h : UploadsAs R folder filename fname v) (hname : isValidName filename = true)
    (hdot : R (inFolder folder filename) = some kvFile → 46 ∉ folder) :
    ∃ n, v = inFolder folder n ∧ isValidName n = true ∧ R v ≠ some kvFile ∧
      ∀ es : List Bytes, (R (inFolder folder filename) = some kvFile → fname ∈ es →
          ∃ e ∈ es, e ≠ [] ∧ afterLast 47 e = afterLast 47 v) →
        fname ∈ es → ∃ e ∈ es, e ≠ [] ∧ afterLast 47 e = n := by
  rcases h with ⟨hfree, rfl, rfl⟩ | ⟨hfile, hdot', i, rfl, rfl, hfree, -⟩
  · exact ⟨_, rfl, hname, hfree, fun es _ hmem => ⟨_, hmem, isValidName_ne_nil hname,
      afterLast_of_notMem (notMem_of_isValidName hname)⟩⟩
  · have hvalid := isValidName_variantPath hname (dot_mem_of_inFolder (hdot hfile) hdot') i
    refine ⟨variantPath filename i, variantPath_inFolder (hdot hfile) i, hvalid, hfree, ?_⟩
    intro es hes hmem
    rw [variantPath_inFolder (hdot hfile), afterLast_inFolder hvalid] at hes
    exact hes hfile hmem

/-- **A file that was uploaded.** -/
theorem run_upload {fuel : ℕ} {folder filename fileData : Bytes} {a : Answer}
    (h : (webStorageUpload b fuel folder filename fileData).run (Call.exec master) kvs =
      (.ok a, s)) :
    (s = kvs ∧ a.Refused) ∨ ∃ fname v, UploadsAs (kvs.row b) folder filename fname v ∧
      (storeUpload b folder fname v fileData).run (Call.exec master) kvs = (.ok a, s) := by
  rcases run_onWorker h with hleft | hrun
  · exact Or.inl hleft
  · split_ifs at hrun
    · exact Or.inl (refused_of_run hrun)
    · refine Or.inr ?_
      rw [run_Get_bind] at hrun
      split_ifs at hrun with hfile
      · obtain ⟨i, t, hi, hrest⟩ := Prog.run_bind_ok _ hrun
        obtain ⟨rfl, hdot, -, hne, hall⟩ := run_freeUpload hi
        exact ⟨_, _, Or.inr ⟨(Tablet.text_eq_iff isErr_kvFile).mp hfile, hdot, i, rfl, rfl, hne,
          fun n h1 h2 => hall n h1 h2⟩, hrest⟩
      · exact ⟨_, _, Or.inl ⟨fun hrow => hfile ((Tablet.text_eq_iff isErr_kvFile).mpr hrow), rfl,
          rfl⟩, hrun⟩

/-- **An item that was deleted**: the entries that contain its name leave the
listing, and then the item goes. -/
theorem run_delete {fuel : ℕ} {path : Bytes} {a : Answer}
    (h : (webStorageDelete b fuel path).run (Call.exec master) kvs = (.ok a, s)) :
    (s = kvs ∧ a.Refused) ∨ (deleteRec b fuel path).run (Call.exec master)
      (kvs.put b (metaCol (beforeLast 47 path)) (joinStorage ((splitStringStorage
        (kvs.text b (metaCol (beforeLast 47 path)))).filter fun it =>
          (cut (afterLast 47 path) it).isNone))) = (.ok (), s) := by
  rcases run_onWorker h with hleft | hrun
  · exact Or.inl hleft
  · refine Or.inr ?_
    rw [run_Get_bind, run_Put_bind] at hrun
    obtain ⟨_, t, ht, hrest⟩ := Prog.run_bind_ok _ hrun
    rw [run_Get_bind] at hrest
    obtain ⟨-, rfl⟩ := Prod.mk.inj hrest
    exact ht

/-- **A file that was renamed.** -/
theorem run_renameFile {folder oldName newName : Bytes} {a : Answer}
    (h : (webStorageRenameFile b folder oldName newName).run (Call.exec master) kvs = (.ok a, s)) :
    (s = kvs ∧ a.Refused) ∨
      kvs.row b (inFolder folder (ensureSameExtension oldName newName)) ≠ some kvFile ∧
      ∃ t : Tablet, (relocateFile b (inFolder folder oldName)
          (inFolder folder (ensureSameExtension oldName newName))).run (Call.exec master) kvs =
          (.ok (), t) ∧
        s.row b = Function.update (t.row b) (metaCol folder) (some (joinStorage (replaceEntry
          (inFolder folder oldName) (inFolder folder (ensureSameExtension oldName newName))
          (splitStringStorage (t.text b (metaCol folder)))))) := by
  rcases run_onWorker h with hleft | hrun
  · exact Or.inl hleft
  · split_ifs at hrun
    · exact Or.inl (refused_of_run hrun)
    · rw [run_Get_bind] at hrun
      split_ifs at hrun with hfile
      · exact Or.inl (refused_of_run hrun)
      · refine Or.inr ⟨fun hrow => hfile ((Tablet.text_eq_iff isErr_kvFile).mpr hrow), ?_⟩
        obtain ⟨_, t, ht, hrest⟩ := Prog.run_bind_ok _ hrun
        rw [run_Get_bind, run_Put_bind] at hrest
        obtain ⟨-, rfl⟩ := Prod.mk.inj hrest
        exact ⟨t, ht, Tablet.row_put _⟩

/-- **A folder that was renamed.** -/
theorem run_renameFolder {fuel : ℕ} {path newName : Bytes} {a : Answer}
    (h : (webStorageRenameFolder b fuel path newName).run (Call.exec master) kvs = (.ok a, s)) :
    (s = kvs ∧ a.Refused) ∨ kvs.row b (inFolder (beforeLast 47 path) newName) ≠ some kvFolder ∧
      (moveTree .rename b fuel path (inFolder (beforeLast 47 path) newName)).run (Call.exec master)
        (kvs.put b (metaCol (beforeLast 47 path)) (joinStorage (replaceEntry path
          (inFolder (beforeLast 47 path) newName)
          (splitStringStorage (kvs.text b (metaCol (beforeLast 47 path))))))) = (.ok (), s) := by
  rcases run_onWorker h with hleft | hrun
  · exact Or.inl hleft
  · split_ifs at hrun
    · exact Or.inl (refused_of_run hrun)
    · rw [run_Get_bind] at hrun
      split_ifs at hrun with hfolder
      · exact Or.inl (refused_of_run hrun)
      · refine Or.inr ⟨fun hrow => hfolder ((Tablet.text_eq_iff isErr_kvFolder).mpr hrow), ?_⟩
        rw [run_Get_bind, run_Put_bind, renameFolderRec_eq] at hrun
        obtain ⟨_, t, ht, hrest⟩ := Prog.run_bind_ok _ hrun
        obtain ⟨-, rfl⟩ := Prod.mk.inj hrest
        exact ht

/-- **A file that was moved.** -/
theorem run_moveFile {fuel : ℕ} {source filename target : Bytes} {a : Answer}
    (hname : isValidName filename = true)
    (h : (webStorageMoveFile b fuel source filename target).run (Call.exec master) kvs =
      (.ok a, s)) :
    (s = kvs ∧ a.Refused) ∨ ∃ v, a = .ok (.fileMoved filename target v) ∧
      (freeTarget b target (leafBase filename) (leafExt filename) fuel 1
        (inFolder target filename)).run (Call.exec master) kvs = (.ok v, kvs) ∧
      ∃ t : Tablet, (relocateFile b (inFolder source filename) v).run (Call.exec master) kvs =
          (.ok (), t) ∧
        (removeEntry b source (inFolder source filename)).run (Call.exec master)
          (t.put b (metaCol target) (joinStorage (splitStringStorage
            (t.text b (metaCol target)) ++ [v]))) = (.ok (), s) := by
  rcases run_onWorker h with hleft | hrun
  · exact Or.inl hleft
  · refine Or.inr ?_
    rw [if_neg (isValidName_ne_nil hname), moveFile, beforeLast_inFolder hname,
      afterLast_inFolder hname] at hrun
    obtain ⟨v, u, hmove, hend⟩ := Prog.run_bind_ok _ hrun
    obtain ⟨ha, rfl⟩ := Prod.mk.inj hend
    obtain ⟨v', t, hv, hrest⟩ := Prog.run_bind_ok _ hmove
    obtain ⟨rfl, -⟩ := run_freeTarget hv
    obtain ⟨_, u, hu, hrest⟩ := Prog.run_bind_ok _ hrest
    rw [run_Get_bind, run_Put_bind] at hrest
    obtain ⟨_, w, hw, hrest⟩ := Prog.run_bind_ok _ hrest
    obtain ⟨hvv, rfl⟩ := Prod.mk.inj hrest
    obtain rfl := Except.ok.inj hvv
    exact ⟨_, (Except.ok.inj ha).symm, hv, u, hu, hw⟩

/-- **A folder that was moved.** -/
theorem run_moveFolder {fuel : ℕ} {folder n target : Bytes} {a : Answer}
    (hn : isValidName n = true)
    (h : (webStorageMoveFolder b fuel (inFolder folder n) target).run (Call.exec master) kvs =
      (.ok a, s)) :
    (s = kvs ∧ a.Refused) ∨
      ¬(target = inFolder folder n ∨ (inFolder folder n ++ [47]).isPrefixOf target = true) ∧
      (isErr (kvs.text b (metaCol target)) = false →
        ∀ e ∈ splitStringStorage (kvs.text b (metaCol target)), afterLast 47 e ≠ n) ∧
      a = .ok (.folderMoved (inFolder folder n) target) ∧
      ∃ t : Tablet, (moveTree .relocate b fuel (inFolder folder n) (inFolder target n)).run
          (Call.exec master) kvs = (.ok (), t) ∧
        (removeEntry b folder (inFolder folder n)).run (Call.exec master)
          (t.put b (metaCol target) (if isErr (t.text b (metaCol target)) ∨
              t.text b (metaCol target) = [] then inFolder target n
            else t.text b (metaCol target) ++ 44 :: inFolder target n)) = (.ok (), s) := by
  rcases run_onWorker h with hleft | hrun
  · exact Or.inl hleft
  · by_cases hguard : target = inFolder folder n ∨ (inFolder folder n ++ [47]).isPrefixOf target
    · rw [if_pos hguard] at hrun
      exact Or.inl (refused_of_run hrun)
    · rw [if_neg hguard, run_Get_bind, afterLast_inFolder hn] at hrun
      dsimp only at hrun
      by_cases hmem : n ∈ (splitStringStorage (if isErr (kvs.text b (metaCol target)) then []
          else kvs.text b (metaCol target))).map (afterLast 47)
      · rw [if_pos hmem] at hrun
        exact Or.inl (refused_of_run hrun)
      · rw [if_neg hmem] at hrun
        by_cases hroot : inFolder folder n = []
        · rw [if_pos hroot] at hrun
          exact Or.inl (refused_of_run hrun)
        · rw [if_neg hroot] at hrun
          refine Or.inr ⟨hguard, fun herr e he heq => hmem ?_, ?_⟩
          · rw [herr, if_neg (by decide)]
            exact List.mem_map.mpr ⟨e, he, heq⟩
          · obtain ⟨_, u, hmove, hend⟩ := Prog.run_bind_ok _ hrun
            obtain ⟨ha, rfl⟩ := Prod.mk.inj hend
            rw [moveFolder, renameFolderMoveRec_eq, afterLast_inFolder hn, beforeLast_inFolder hn]
              at hmove
            obtain ⟨_, t, ht, hrest⟩ := Prog.run_bind_ok _ hmove
            rw [run_Get_bind, run_Put_bind] at hrest
            exact ⟨(Except.ok.inj ha).symm, t, ht, hrest⟩

end Effects

end PennCloud
