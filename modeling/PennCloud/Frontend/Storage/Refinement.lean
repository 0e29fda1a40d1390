import PennCloud.Frontend.Storage.TreeRequests

/-!
# The web storage as a file system

A run of the web storage from a store without a row of the user is a run of a tree of
files and folders, as long as the requests find what they need
(`PennCloud.webStorage_refines_tree`): every answer is the one the tree gives, and at the
end the pages show the tree, each item once, and the downloads are its files. Such a run
never gets stuck (`PennCloud.webStorage_goes_on`): a request that fits is answered, with
whatever there was before it.
-/

namespace PennCloud

open Wire Calls Text

/-! ### Runs -/

/-- A request, with the rounds of its loops, and the answer to it. -/
abbrev Exchange := StorageEvent × Answer

namespace Exchange

/-- The request is worked on. -/
def step (master : Master) (b : Bytes) (kvs : Tablet) (x : Exchange) : Tablet :=
  StorageRequest.step master b kvs x.1

/-- The request finds what it needs, and this is the answer to it. -/
def Fitting (master : Master) (b : Bytes) (kvs : Tablet) (x : Exchange) : Prop :=
  x.1.2.Valid ∧ x.1.2.Fits (kvs.row b) ∧
    ((x.1.2.handler b x.1.1).run (Call.exec master) kvs).1 = .ok x.2

/-- The same for a tree. -/
def OnTree (t : FileTree ItemName Bytes) (x : Exchange) (t' : FileTree ItemName Bytes) : Prop :=
  StorageRequest.Does t x.1.2 x.2 t'

end Exchange

/-- **The pages of a user** are those of a tree: every folder shows what is in it, and the
download of a file is its bytes. -/
def PagesOf (master : Master) (b : Bytes) (kvs : Tablet) (t : FileTree ItemName Bytes) : Prop :=
  (∀ p, t.item p = some .folder → Displays (shown master b kvs (pathOf p)) t p) ∧
    ∀ p (n : ItemName) d, t.item (p ++ [n]) = some (.file d) →
      ((webStorageDownload b (pathOf p) n.1).run (Call.exec master) kvs).1 =
        .ok (.download n.1 d)

/-! ### Every request that fits is answered -/

section Answers

variable {b : Bytes} {master : Master} {kvs : Tablet} {t : FileTree ItemName Bytes}
  {p q : List ItemName} {m n : ItemName}

/-- The chunks of a file have names that are long enough. -/
theorem Represents.chunksFit {R : Row} (h : Represents R t) (hp : p ≠ [])
    (hfile : R (pathOf p) = some kvFile) : ChunksFit R (pathOf p) := by
  have hpath := isPath_pathOf hp
  obtain ⟨k, hch⟩ := h.wellFormed.files _ hpath hfile
  intro v hv _ _ chunk hchunk
  rw [hch.list] at hv
  rw [← Option.some.inj hv, split_chunkNames hpath.notMem_comma hch.pos] at hchunk
  obtain ⟨i, -, rfl⟩ := mem_chunkNames.mp hchunk
  rw [chunkName, List.append_assoc, List.length_append]
  omega

/-- The entry of an empty listing is moved like a file, from where nothing is. -/
theorem ends_moveChild_nil {move : Bytes → Bytes → Handler Unit} {new : Bytes}
    (h : kvs.text b [] ≠ kvFolder) :
    (Prog.each (moveChild .rename b move new) [[]]).Ends (Call.exec master) kvs := by
  have hmoves : TreeMove.rename.moves (kvs.text b []) = true := rfl
  rw [Prog.each_cons, Prog.ends_bind_total fun _ => ?_]
  · rw [moveChild, ends_Get_bind, if_neg h, if_pos hmoves, ends_relocateFile]
    exact fun _ _ _ _ chunk _ => Nat.zero_le _
  · exact Prog.Total.pure ()

theorem ends_renameFolder_empty (hblank : Blank (kvs.row b)) {folder l new : Bytes}
    (hfolder : IsFolderPath folder) (hl : isValidName l = true) (hnew : isValidName new = true)
    (hmeta : inFolder folder l ++ ascii "-metadata" ≠ metaCol folder)
    (hempty : kvs.row b (inFolder folder l ++ ascii "-metadata") = some []) :
    (webStorageRenameFolder b 1 (inFolder folder l) new).Ends (Call.exec master) kvs := by
  rw [webStorageRenameFolder, ends_onWorker, beforeLast_inFolder hl]
  intro _
  rw [if_neg (by simp [hnew]), ends_Get_bind]
  split_ifs
  · exact Prog.ends_pure _ _
  rw [ends_Get_bind, ends_Put_bind, Prog.ends_bind_total fun _ => .pure _, renameFolderRec_eq,
    Prog.Ends, run_moveTree_open]
  generalize hkvs : kvs.put b (metaCol folder) _ = kvs'
  have hblank' : Blank (kvs'.row b) := by
    rw [← hkvs, Tablet.row_put]
    exact hblank.update (rooted_metaCol hfolder).not_isBlank _
  have htext : kvs'.text b (inFolder folder l ++ ascii "-metadata") = [] := by
    refine Tablet.text_of_row ?_
    rw [← hkvs, Tablet.row_put, Function.update_of_ne hmeta, hempty]
  rw [htext]
  -- the one entry is the empty path, where there is nothing
  have hmarker : (openTablet kvs' b (inFolder folder l) (inFolder folder new) []).text b [] ≠
      kvFolder := by
    intro heq
    have hrow := (Tablet.text_eq_iff isErr_kvFolder).mp heq
    rw [row_openTablet, hblank'.opened (IsPath.inFolder hfolder hl)
      (IsPath.inFolder hfolder hnew) [] [] (Or.inl rfl)] at hrow
    exact absurd hrow (by simp)
  exact ends_moveChild_nil hmarker

/-- **Every request that fits is answered**, when its loops have rounds enough. -/
theorem Represents.ends (h : Represents (kvs.row b) t) (hblank : Blank (kvs.row b))
    (hup : master.Up) {r : StorageRequest} (hvalid : r.Valid) (hfits : r.Fits (kvs.row b)) :
    ∃ fuel, (r.handler b fuel).Ends (Call.exec master) kvs := by
  cases r with
  | list folder => exact ⟨0, (total_webStorageList folder).ends kvs⟩
  | upload folder filename fileData =>
    refine ends_webStorageUpload.mpr fun _ _ hfile => ?_
    obtain ⟨-, -, -, -, hdots, -⟩ := hfits
    rw [inFolder]
    split_ifs
    · exact (hdots hfile).1
    · exact List.mem_append_right _ (List.mem_cons_of_mem _ (hdots hfile).1)
  | createFolder parent name => exact ⟨0, (total_webStorageCreateFolder parent name).ends kvs⟩
  | delete path => exact ends_webStorageDelete master kvs b path
  | renameFile folder oldName newName =>
    obtain ⟨p, rfl⟩ := hvalid.1.exists_pathOf
    have hpath : inFolder (pathOf p) oldName = pathOf (p ++ [⟨oldName, hvalid.2.1⟩]) :=
      (pathOf_concat p ⟨oldName, hvalid.2.1⟩).symm
    refine ⟨0, ends_webStorageRenameFile.mpr fun _ _ _ => ?_⟩
    obtain ⟨hfile, -⟩ := hfits
    rw [hpath] at hfile ⊢
    exact h.chunksFit (by simp) hfile
  | renameFolder path newName =>
    obtain ⟨p, m, rfl⟩ := hvalid.1.exists_concat
    obtain ⟨hfolder, htaken | ⟨hempty, -⟩⟩ := hfits
    · obtain ⟨page, hpage⟩ := @run_renameFolder_taken b master kvs 0 _ _ hup hvalid.2 htaken
      exact ⟨0, _, congrArg Prod.fst hpage⟩
    · have hitem := (h.items (p ++ [m]) (by simp)).folder_iff.mp hfolder
      have hroot : p ++ [m] ≠ [rootName] := by
        intro heq
        rw [heq, h.root] at hitem
        exact absurd hitem (by simp)
      have hmeta : pathOf (p ++ [m]) ++ ascii "-metadata" ≠ metaCol (pathOf p) := fun heq =>
        not_columnOf_metaCol_pathOf (by simp) (by simp) hroot (heq ▸ columnOf_metadata _)
      rw [pathOf_concat] at hempty hmeta ⊢
      exact ⟨1, ends_renameFolder_empty hblank (isFolderPath_pathOf p) m.2 hvalid.2 hmeta hempty⟩
  | moveFile source filename target =>
    obtain ⟨p, rfl⟩ := hvalid.1.exists_pathOf
    have hpath : inFolder (pathOf p) filename = pathOf (p ++ [⟨filename, hvalid.2.1⟩]) :=
      (pathOf_concat p ⟨filename, hvalid.2.1⟩).symm
    refine ends_webStorageMoveFile.mpr fun _ _ => ?_
    obtain ⟨hfile, -⟩ := hfits
    rw [hpath] at hfile ⊢
    exact h.chunksFit (by simp) hfile
  | moveFolder source target =>
    obtain ⟨hfolder, hex, hmeta, herr⟩ := hfits
    by_cases hmay : MayMove master kvs b source target
    · obtain ⟨k, u, hu, -⟩ := webStorageMoveFolder_exact h.wellFormed hmay hvalid.1 hfolder hvalid.2
        hex hmeta herr
      exact ⟨k, _, congrArg Prod.fst (hu k le_rfl)⟩
    · obtain ⟨page, hpage⟩ := run_moveFolder_stays hup hmay 0
      exact ⟨0, _, congrArg Prod.fst hpage⟩

end Answers

section Runs

variable {b : Bytes} {master : Master} {kvs₀ : Tablet} {xs : List Exchange}

/-- A row without columns represents the empty tree. -/
theorem represents_empty {R : Row} (h0 : ∀ c, R c = none) : Represents R .empty := by
  have hnone : ∀ p : List ItemName, p ≠ [] →
      (FileTree.empty : FileTree ItemName Bytes).item p = none := by
    intro p hp
    obtain ⟨p, n, rfl⟩ := (List.eq_nil_or_concat' p).resolve_left hp
    exact FileTree.item_empty_concat p n
  refine ⟨fun p hp => ?_, fun p hp => ?_, fun p hp hne => ?_, hnone _ (List.cons_ne_nil _ _)⟩
  · rw [hnone p hp]
    refine ⟨?_, h0 _⟩
    rw [Live, h0]
    simp
  · rw [entriesOf, h0]
    refine ⟨List.nodup_nil, fun e => iff_of_false List.not_mem_nil ?_⟩
    rintro ⟨n, -, hn⟩
    exact hn (FileTree.item_empty_concat p n)
  · exact absurd (hnone p hp) hne

/-- The rows of a run, and the trees they represent. -/
theorem represents_of_along (hup : master.Up) (h0 : ∀ c, kvs₀.row b c = none)
    (h : Runs.Along (Exchange.step master b) (Exchange.Fitting master b) kvs₀ xs) :
    ∃ t, Runs.Follows Exchange.OnTree .empty xs t ∧
      Represents ((xs.foldl (Exchange.step master b) kvs₀).row b) t ∧
      Blank ((xs.foldl (Exchange.step master b) kvs₀).row b) := by
  have hstep : ∀ (kvs : Tablet) (t : FileTree ItemName Bytes) (x : Exchange),
      Represents (kvs.row b) t ∧ Blank (kvs.row b) → x.Fitting master b kvs →
      ∃ t', Exchange.OnTree t x t' ∧ Represents ((x.step master b kvs).row b) t' ∧
        Blank ((x.step master b kvs).row b) := by
    rintro kvs t ⟨⟨fuel, r⟩, a⟩ ⟨hrep, hblank⟩ ⟨hvalid, hfits, hanswer⟩
    obtain ⟨t', ht', hrep'⟩ := hrep.does hblank hup hvalid hfits (Prod.ext hanswer rfl)
    exact ⟨t', ht', hrep', KeepsBlank.handler hvalid fuel kvs hblank⟩
  exact h.simulates hstep ⟨represents_empty h0, fun c _ => h0 c⟩

/-- **The web storage is a file system.** From a store without a row of the user, along any
sequence of requests that find what they need, each request does to a tree of files and
folders what it is for, and tells the user so; and the pages of the user are those of
the tree. -/
theorem webStorage_refines_tree (hup : master.Up) (h0 : ∀ c, kvs₀.row b c = none)
    (h : Runs.Along (Exchange.step master b) (Exchange.Fitting master b) kvs₀ xs) :
    ∃ t, Runs.Follows Exchange.OnTree .empty xs t ∧
      PagesOf master b (xs.foldl (Exchange.step master b) kvs₀) t := by
  obtain ⟨t, ht, hrep, -⟩ := represents_of_along hup h0 h
  exact ⟨t, ht, fun p hp => hrep.displays hup hp, fun p n d hd => hrep.download hup hd⟩

/-- Ann looks at her storage, makes a folder, uploads a note and moves it into the folder. -/
def noteFiled : List Exchange :=
  [((0, .list []), .ok (.listing [] none)),
    ((0, .createFolder [] (ascii "a")), .ok (.folderCreated (ascii "a") [] (ascii "a"))),
    ((0, .upload [] (ascii "n") [120]), .ok (.uploaded (ascii "n") [] (ascii "n"))),
    ((2, .moveFile [] (ascii "n") (ascii "a")),
      .ok (.fileMoved (ascii "n") (ascii "a") (ascii "a/n")))]

example : (noteFiled.foldl (Exchange.step Master.first annsRow) ∅).row annsRow (ascii "a/n") =
    some kvFile := by decide +kernel

theorem along_noteFiled : Runs.Along (Exchange.step Master.first annsRow)
    (Exchange.Fitting Master.first annsRow) ∅ noteFiled := by
  have htried : ∀ {R : Row} {i}, R (ascii "n") = none →
      (∀ j < i, R (triedPath (ascii "n") j) = some kvFile) → i = 0 := by
    intro R i hnone htaken
    by_contra hi
    have hfile := htaken 0 (Nat.pos_of_ne_zero hi)
    rw [triedPath, hnone] at hfile
    exact absurd hfile (by simp)
  refine ⟨⟨Or.inl rfl, Or.inl rfl, by decide +kernel⟩,
    ⟨⟨Or.inl rfl, by decide⟩, ?_, by decide +kernel⟩,
    ⟨⟨Or.inl rfl, by decide⟩, ?_, by decide +kernel⟩,
    ⟨⟨Or.inl rfl, by decide, Or.inr (by decide)⟩, ?_, by decide +kernel⟩, trivial⟩
  · refine ⟨Or.inl rfl, Or.inr ⟨by decide +kernel, ⟨by decide +kernel, by decide, by decide⟩, ?_⟩⟩
    exact Or.inl (by decide +kernel)
  · refine ⟨Or.inl rfl, by decide +kernel, by decide, by decide, ?_, fun i _ htaken => ?_⟩
    · intro hfile
      exact absurd hfile (by decide +kernel)
    · obtain rfl := htried (by decide +kernel) htaken
      exact ⟨⟨by decide +kernel, by decide, by decide⟩, fun _ => by decide,
        fun _ => by decide +kernel⟩
  · exact ⟨by decide +kernel, Or.inr (by decide +kernel), by decide +kernel, by decide, by decide⟩

theorem noteFiled_refines_tree : ∃ t, Runs.Follows Exchange.OnTree .empty noteFiled t ∧
    PagesOf Master.first annsRow (noteFiled.foldl (Exchange.step Master.first annsRow) ∅) t :=
  webStorage_refines_tree Master.up_first (fun _ => rfl) along_noteFiled

/-- **No request that fits is left without an answer**, whatever requests there were before:
a run can go on with it. -/
theorem webStorage_goes_on (hup : master.Up) (h0 : ∀ c, kvs₀.row b c = none)
    (h : Runs.Along (Exchange.step master b) (Exchange.Fitting master b) kvs₀ xs)
    {r : StorageRequest} (hvalid : r.Valid)
    (hfits : r.Fits ((xs.foldl (Exchange.step master b) kvs₀).row b)) :
    ∃ fuel a, Exchange.Fitting master b (xs.foldl (Exchange.step master b) kvs₀)
      ((fuel, r), a) := by
  obtain ⟨t, -, hrep, hblank⟩ := represents_of_along hup h0 h
  obtain ⟨fuel, a, ha⟩ := hrep.ends hblank hup hvalid hfits
  exact ⟨fuel, a, hvalid, hfits, ha⟩

theorem noteFiled_goes_on : ∃ fuel a, Exchange.Fitting Master.first annsRow
    (noteFiled.foldl (Exchange.step Master.first annsRow) ∅)
    ((fuel, .delete (ascii "a/n")), a) := by
  refine webStorage_goes_on Master.up_first (fun _ => rfl) along_noteFiled
    (show IsPath (ascii "a/n") by decide) ?_
  have hlisting : (noteFiled.foldl (Exchange.step Master.first annsRow) ∅).row annsRow
      (metaCol (beforeLast 47 (ascii "a/n"))) = some (ascii ",a/n") := by decide +kernel
  refine ⟨by decide +kernel, fun w hw => ?_⟩
  rw [← Option.some.inj (hlisting.symm.trans hw)]
  decide

end Runs

end PennCloud
