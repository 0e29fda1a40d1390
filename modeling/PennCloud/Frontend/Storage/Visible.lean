import PennCloud.Frontend.Storage.Effects

/-!
# Items that were put into a folder

When a folder is created, or a file is uploaded, or one of them is moved, and the
answer is a 200, the page of the folder should show the item from then on, next to
everything it showed before. Whether it does depends on the listing that is found:
where there is none, the text of the error becomes its first entry, and a listing
that begins with `ERR` is shown as if it were empty
(`PennCloud.created_not_visible`: a folder made at the root before the root was
looked at).

`PennCloud.StorageRequest.Placeable` is what each of the four handlers relies on
without looking at it: a listing that can be read before and after, a path that is
free in the way the handler does not ask about, and, for a file that is stored
under a name with a number, that the number goes behind a name in the same folder.
Under it the item is visible, in every row that is reached
(`PennCloud.visible_of_placeable`).
-/

namespace PennCloud

open Wire Calls Text

/-! ### The conditions -/

/-- A listing that can be read, and can be read with the entry `p` on it. -/
def Readable (R : Row) (folder p : Bytes) : Prop :=
  ∃ v, R (metaCol folder) = some v ∧ isErr v = false ∧ (v = [] → isErr p = false)

/-- Where a request has put an item: the folder, the path, and the kind. -/
def Page.placed : Page → Option (Bytes × Bytes × Kind)
  | .uploaded _ folder path => some (folder, path, .file)
  | .folderCreated _ parent path => some (parent, path, .folder)
  | .fileMoved _ target path => some (target, path, .file)
  | .folderMoved source target => some (target, inFolder target (afterLast 47 source), .folder)
  | _ => none

namespace StorageRequest

/-- A request that puts an item into a folder. -/
def Adds : StorageRequest → Prop
  | .upload _ _ _ => True
  | .createFolder _ _ => True
  | .moveFile _ _ _ => True
  | .moveFolder _ _ => True
  | _ => False

/-- What a request is about is there. -/
def Exists (R : Row) : StorageRequest → Prop
  | .upload folder _ _ => Existing R folder
  | .createFolder parent _ => Existing R parent
  | .moveFile source filename target =>
    R (inFolder source filename) = some kvFile ∧ Existing R target
  | .moveFolder source target => R source = some kvFolder ∧ Existing R target
  | _ => True

/-- **What the handlers rely on.** -/
def Placeable (R : Row) : StorageRequest → Prop
  | .upload folder filename _ => ∀ fname v, UploadsAs R folder filename fname v →
    Readable R folder v ∧ v ≠ ascii "metadata" ∧ R v ≠ some kvFolder ∧
    (R (inFolder folder filename) = some kvFile → 46 ∉ folder ∧
      ∀ listing, R (metaCol folder) = some listing → fname ∈ splitStringStorage listing →
        ∃ e ∈ splitStringStorage listing, e ≠ [] ∧ afterLast 47 e = afterLast 47 v)
  | .createFolder parent name =>
    Readable R parent (inFolder parent name) ∧ inFolder parent name ≠ ascii "metadata"
  | .moveFile source filename target => inFolder target filename ≠ ascii "metadata" ∧
    ∃ listing, R (metaCol target) = some listing ∧ isErr listing = false ∧
      (source = target → ∀ i,
        isErr (joinStorage (keptEntries (inFolder source filename) listing ++
          [inFolder target (leafBase filename ++ parenthesized i ++ leafExt filename)])) = false)
  | .moveFolder source target => Tidy R source ∧ Free R (inFolder target (afterLast 47 source)) ∧
    inFolder target (afterLast 47 source) ≠ ascii "metadata" ∧
    ((∀ v, R (metaCol target) = some v → isErr v = true ∨ v = []) →
      isErr (inFolder target (afterLast 47 source)) = false)
  | _ => True

end StorageRequest

/-- **An item is visible where it was put**: the page of the folder shows it with its
kind, and everything it showed before, but for what was moved. -/
def Visible (master : Master) (b : Bytes) (r : StorageRequest) (kvs kvs' : Tablet)
    (folder path : Bytes) (k : Kind) : Prop :=
  (∃ n, path = inFolder folder n ∧ (n, k) ∈ shown master b kvs' folder) ∧
    ∀ m k', isValidName m = true → ¬r.Moves (inFolder folder m) →
      (m, k') ∈ shown master b kvs folder → (m, k') ∈ shown master b kvs' folder

section Visible

variable {b : Bytes} {master : Master} {kvs kvs' : Tablet} {r : StorageRequest}

/-- The listing of the root is not an item that is shown. -/
theorem ne_metaCol_of_entry {R : Row} {folder m v e : Bytes} {k : Kind} (hm : isValidName m = true)
    (hfolder : IsFolderPath folder) (hv : R (metaCol folder) = some v)
    (he : e ∈ splitStringStorage v) (hlast : afterLast 47 e = m)
    (hrow : R (inFolder folder m) = some k.marker) : inFolder folder m ≠ metaCol folder := by
  intro heq
  have hmarker : v = k.marker := Option.some.inj (hv.symm.trans (heq ▸ hrow))
  have hdash := (IsPath.inFolder hfolder hm).notMem_dash
  rw [heq, metaCol] at hdash
  split_ifs at hdash with hroot
  · rw [hroot] at heq
    have hmeta : m = ascii "metadata" := heq
    rw [hmarker] at he
    cases k with
    | file =>
      obtain rfl : e = kvFile := by simpa using (show e ∈ [kvFile] from he)
      exact absurd (hlast.trans hmeta) (by decide)
    | folder =>
      obtain rfl : e = kvFolder := by simpa using (show e ∈ [kvFolder] from he)
      exact absurd (hlast.trans hmeta) (by decide)
  · exact hdash (List.mem_append_right folder (by decide))

/-- What is to be shown: the listing can be read and has the new entry and the old
ones, and the items are as before. -/
theorem visible_of_rows (hup : master.Up) {folder n : Bytes} {k : Kind} {v' : Bytes}
    (hpath : IsFolderPath folder) (hv' : kvs'.row b (metaCol folder) = some v')
    (herr : isErr v' = false) (hfolder : Existing (kvs'.row b) folder)
    (hentry : ∃ e ∈ splitStringStorage v', e ≠ [] ∧ afterLast 47 e = n)
    (hmarker : kvs'.row b (inFolder folder n) = some k.marker)
    (hold : ∀ m, isValidName m = true → ¬r.Moves (inFolder folder m) →
      Live (kvs.row b) (inFolder folder m) → inFolder folder m ≠ metaCol folder →
        kvs'.row b (inFolder folder m) = kvs.row b (inFolder folder m) ∧
        ∀ v, kvs.row b (metaCol folder) = some v → isErr v = false → ∀ e ∈ splitStringStorage v,
          e ≠ [] → afterLast 47 e = m → e ∈ splitStringStorage v') :
    Visible master b r kvs kvs' folder (inFolder folder n) k := by
  have hdel : folder = [] ∨ kvs'.row b folder ≠ some delKvFolder := by
    refine hfolder.imp_right fun h heq => ?_
    exact absurd (h.symm.trans heq) (by decide)
  constructor
  · obtain ⟨e, he, hne, hlast⟩ := hentry
    exact ⟨n, rfl, (mem_shown_iff hup).mpr ⟨v', hv', herr, hdel, e, he, hne, hlast, hmarker⟩⟩
  · intro m k' hm hmoves hshown
    obtain ⟨v, hv, hverr, -, e, he, hne, hlast, hrow⟩ := (mem_shown_iff hup).mp hshown
    obtain ⟨hsame, hentries⟩ := hold m hm hmoves (live_iff.mpr ⟨k', hrow⟩)
      (ne_metaCol_of_entry hm hpath hv he hlast hrow)
    exact (mem_shown_iff hup).mpr ⟨v', hv', herr, hdel, e, hentries v hv hverr e he hne hlast, hne,
      hlast, hsame.trans hrow⟩

/-- An item that was put on a listing, at a path that was free, is visible. -/
theorem visible_of_withUpload (hup : master.Up) {folder n name v : Bytes} {k : Kind}
    (hpath : IsFolderPath folder) (hfolder : Existing (kvs.row b) folder) 
    (hn : isValidName n = true) (hfree : ¬Live (kvs.row b) (inFolder folder n))
    (hv : kvs.row b (metaCol folder) = some v) (herr : isErr v = false)
    (hnil : v = [] → isErr (inFolder folder n) = false)
    (hname : name ∈ splitStringStorage v →
      ∃ e ∈ splitStringStorage v, e ≠ [] ∧ afterLast 47 e = n)
    (hlisting : kvs'.row b (metaCol folder) = some (withUpload v name (inFolder folder n)))
    (hmarker : kvs'.row b (inFolder folder n) = some k.marker)
    (hother : ∀ c, 45 ∉ c → c ≠ inFolder folder n → c ≠ metaCol folder →
      kvs'.row b c = kvs.row b c) :
    Visible master b r kvs kvs' folder (inFolder folder n) k := by
  have hlast : afterLast 47 (inFolder folder n) = n := afterLast_inFolder hn
  have hne := isValidName_ne_nil hn
  have hcomma := (IsPath.inFolder hpath hn).notMem_comma
  refine visible_of_rows hup hpath hlisting (isErr_withUpload name herr hnil) ?_ ?_ hmarker ?_
  · rcases hpath with hroot | hp
    · exact Or.inl hroot
    · refine Or.inr ?_
      rw [hother folder hp.notMem_dash (inFolder_ne_folder hne).symm]
      · exact hfolder.resolve_left hp.ne_nil
      · exact metaCol_ne_self.symm
  · have hmem := @exists_mem_withUpload v _ name hcomma (inFolder_ne_nil hne)
    rw [hlast] at hmem
    exact hmem hname
  · intro m hm _ hlive hmeta
    have hmn : inFolder folder m ≠ inFolder folder n := fun heq => hfree (heq ▸ hlive)
    refine ⟨hother _ (IsPath.inFolder hpath hm).notMem_dash hmn hmeta, ?_⟩
    intro v₀ hv₀ _ e he hne' _
    obtain rfl : v₀ = v := Option.some.inj (hv₀.symm.trans hv)
    exact mem_withUpload_of_mem name he hne'

/-- A folder that was created is visible. -/
theorem visible_createFolder (hup : master.Up) {parent name : Bytes} {page : Page}
    (hparent : IsFolderPath parent) (hname : isValidName name = true)
    (hex : Existing (kvs.row b) parent) (hread : Readable (kvs.row b) parent (inFolder parent name))
    (hmeta : inFolder parent name ≠ ascii "metadata")
    (hrun : (webStorageCreateFolder b parent name).run (Call.exec master) kvs =
      (.ok (.ok page), kvs')) :
    page.placed = some (parent, inFolder parent name, .folder) ∧
      Visible master b r kvs kvs' parent (inFolder parent name) .folder := by
  obtain ⟨v, hv, herr, hnil⟩ := hread
  have hpath := IsPath.inFolder hparent hname
  rcases run_createFolder hrun with ⟨-, href⟩ | ⟨hpage, hfree, hrow⟩
  · exact absurd rfl (href page)
  · rw [Tablet.text_of_row hv] at hrow
    obtain rfl : page = .folderCreated name parent (inFolder parent name) := Answer.ok.inj hpage
    have hlast : name ∈ splitStringStorage v →
        ∃ e ∈ splitStringStorage v, e ≠ [] ∧ afterLast 47 e = name := fun hmem =>
      ⟨name, hmem, isValidName_ne_nil hname, afterLast_of_notMem (notMem_of_isValidName hname)⟩
    refine ⟨rfl, visible_of_withUpload hup hparent hex hname hfree hv herr hnil hlast ?_ ?_ ?_⟩
    · have hself := @inFolder_ne_folder parent name (isValidName_ne_nil hname)
      rw [hrow, Function.update_of_ne (metaCol_ne_metadata hself.symm),
        Function.update_of_ne (metaCol_ne hpath.notMem_dash fun _ => hmeta),
        Row.listed_metaCol (isValidName_ne_nil hname) fun _ => hv]
    · rw [hrow, Function.update_of_ne (ne_metadata_of_notMem hpath.notMem_dash),
        Function.update_self]
      rfl
    · intro c hc hne hne'
      rw [hrow, Function.update_of_ne (ne_metadata_of_notMem hc), Function.update_of_ne hne,
        Row.listed_of_ne hne']

/-- A file that was uploaded is visible. -/
theorem visible_upload (hup : master.Up) {fuel : ℕ} {folder filename fileData : Bytes} {page : Page}
    (hpath : IsFolderPath folder) (hname : isValidName filename = true)
    (hex : Existing (kvs.row b) folder)
    (hplace : StorageRequest.Placeable (kvs.row b) (.upload folder filename fileData))
    (hrun : (webStorageUpload b fuel folder filename fileData).run (Call.exec master) kvs =
      (.ok (.ok page), kvs')) :
    ∃ path, page.placed = some (folder, path, .file) ∧
      Visible master b r kvs kvs' folder path .file := by
  rcases run_upload hrun with ⟨-, href⟩ | ⟨fname, v, hto, hstore⟩
  · exact absurd rfl (href page)
  · obtain ⟨⟨listing, hlisting, herr, hnil⟩, hmeta, hfolder, hredirect⟩ := hplace fname v hto
    obtain ⟨n, rfl, hvalid, hfile, hentry⟩ := hto.exists_name hname fun hfile =>
      (hredirect hfile).1
    obtain ⟨hpage, hmarker, hlist, hkeeps⟩ := row_storeUpload hpath hvalid hmeta hstore
    obtain rfl := Answer.ok.inj hpage
    refine ⟨_, rfl, visible_of_withUpload hup hpath hex hvalid
      (fun hlive => hlive.elim hfile hfolder) hlisting herr hnil
      (hentry _ fun hf => (hredirect hf).2 listing hlisting) ?_ hmarker ?_⟩
    · rw [hlist, hlisting]
      rfl
    · intro c hc h1 h2
      refine hkeeps c (fun h => hc h.mem) ?_
      rintro (h | h | h)
      · exact h1 h
      · exact ne_metadata_of_notMem hc h
      · exact h2 h

theorem isErr_append_entry {v : Bytes} (h : isErr v = false) (p : Bytes) :
    isErr (v ++ 44 :: p) = false := by
  by_cases hv : v = []
  · rw [hv]
    rfl
  · exact isErr_append_comma hv h p

/-- Taking a path off a listing leaves a marker alone. -/
theorem removeEntry_marker {folder entry : Bytes} (hentry : 45 ∉ entry)
    (hrow : kvs.row b (metaCol folder) = some kvFolder)
    (h : (removeEntry b folder entry).run (Call.exec master) kvs = (.ok (), kvs')) :
    kvs'.row b (metaCol folder) = some kvFolder := by
  obtain ⟨s, hs, hs'⟩ := @run_removeEntry b master kvs folder entry
  obtain ⟨-, rfl⟩ := Prod.mk.inj (hs.symm.trans h)
  have hkept : keptEntries entry kvFolder = [kvFolder] := by
    rw [keptEntries, show splitStringStorage kvFolder = [kvFolder] by decide]
    refine List.filter_eq_self.mpr fun e he => ?_
    rw [List.mem_singleton] at he
    refine decide_eq_true fun heq => hentry ?_
    rw [← heq, he]
    decide
  rw [hs', Function.update_self, Tablet.text_of_row hrow, hkept]
  rfl

/-- The target of a move is still there when the entry has been taken off. -/
theorem existing_of_removeEntry {folder entry target : Bytes} (hentry : 45 ∉ entry)
    (hex : Existing (kvs.row b) target)
    (h : (removeEntry b folder entry).run (Call.exec master) kvs = (.ok (), kvs')) :
    Existing (kvs'.row b) target := by
  refine hex.imp_right fun hrow => ?_
  by_cases heq : target = metaCol folder
  · rw [heq] at hrow ⊢
    exact removeEntry_marker hentry hrow h
  · obtain ⟨s, hs, hs'⟩ := @run_removeEntry b master kvs folder entry
    obtain ⟨-, rfl⟩ := Prod.mk.inj (hs.symm.trans h)
    rw [hs', Function.update_of_ne heq, hrow]

/-- The listing of the target of a move, once the old entry is taken off. -/
theorem exists_listing_of_removeEntry {source target old new listing : Bytes} (hne : new ≠ old)
    (hnew : 44 ∉ new) (hrow : kvs.row b (metaCol target) = some (listing ++ 44 :: new))
    (herr : isErr listing = false)
    (hsame : source = target → isErr (joinStorage (keptEntries old listing ++ [new])) = false)
    (h : (removeEntry b source old).run (Call.exec master) kvs = (.ok (), kvs')) :
    ∃ v', kvs'.row b (metaCol target) = some v' ∧ isErr v' = false ∧
      new ∈ splitStringStorage v' ∧
      ∀ e ∈ splitStringStorage listing, (source = target → e ≠ old) →
        e ∈ splitStringStorage v' := by
  obtain ⟨s, hs, hs'⟩ := @run_removeEntry b master kvs source old
  obtain ⟨-, rfl⟩ := Prod.mk.inj (hs.symm.trans h)
  have hself : new ∈ splitStringStorage new := by
    rw [splitStringStorage_of_notMem hnew]
    exact List.mem_cons_self
  by_cases hst : source = target
  · subst hst
    have hkept : keptEntries old (listing ++ 44 :: new) = keptEntries old listing ++ [new] := by
      rw [keptEntries, splitStringStorage_append, splitStringStorage_of_notMem hnew,
        List.filter_append, List.filter_cons_of_pos (by simpa using hne), keptEntries]
      rfl
    have hkne : keptEntries old listing ++ [new] ≠ [] := by simp
    have hmem : ∀ e, e ∈ splitStringStorage (joinStorage (keptEntries old listing ++ [new])) ↔
        e ∈ keptEntries old listing ++ [new] := by
      intro e
      refine mem_split_join (fun e' he' => ?_) hkne
      rcases List.mem_append.mp he' with he' | he'
      · exact notMem_comma_of_mem (mem_keptEntries.mp he').1
      · rw [List.mem_singleton.mp he']
        exact hnew
    refine ⟨_, ?_, hsame rfl, (hmem new).mpr (List.mem_append_right _ List.mem_cons_self), ?_⟩
    · rw [hs', Function.update_self, Tablet.text_of_row hrow, hkept, if_neg hkne]
    · exact fun e he heo =>
        (hmem e).mpr (List.mem_append_left _ (mem_keptEntries.mpr ⟨he, heo rfl⟩))
  · refine ⟨listing ++ 44 :: new, ?_, isErr_append_entry herr new,
      mem_split_append.mpr (Or.inr hself), fun e he _ => mem_split_append.mpr (Or.inl he)⟩
    rw [hs', Function.update_of_ne (fun heq => hst (metaCol_inj heq).symm), hrow]

/-- A file that was moved is visible. -/
theorem visible_moveFile (hup : master.Up) {fuel : ℕ} {source filename target : Bytes} {page : Page}
    (hsource : IsFolderPath source) (hname : isValidName filename = true)
    (htarget : IsFolderPath target)
    (hex : StorageRequest.Exists (kvs.row b) (.moveFile source filename target))
    (hplace : StorageRequest.Placeable (kvs.row b) (.moveFile source filename target))
    (hrun : (webStorageMoveFile b fuel source filename target).run (Call.exec master) kvs =
      (.ok (.ok page), kvs')) :
    ∃ path, page.placed = some (target, path, .file) ∧
      Visible master b (.moveFile source filename target) kvs kvs' target path .file := by
  obtain ⟨hfile, hex⟩ := hex
  obtain ⟨hmeta, listing, hlisting, herr, hsame⟩ := hplace
  rcases run_moveFile hname hrun with ⟨-, href⟩ | ⟨v, hpage, hfree, t, ht, hremove⟩
  · exact absurd rfl (href page)
  obtain rfl := Answer.ok.inj hpage
  obtain ⟨-, hnot, hwhich⟩ := run_freeTarget hfree
  obtain ⟨m, hm, rfl⟩ := exists_name_of_freeTarget hname hfree
  have hmne := isValidName_ne_nil hm
  have hold : 45 ∉ inFolder source filename := (IsPath.inFolder hsource hname).notMem_dash
  have hnew : 45 ∉ inFolder target m := (IsPath.inFolder htarget hm).notMem_dash
  have hne : inFolder target m ≠ inFolder source filename := fun heq =>
    hnot (heq ▸ Or.inl hfile)
  have hcomma := (IsPath.inFolder htarget hm).notMem_comma
  -- the target is neither of the two paths
  have htold : target ≠ inFolder source filename := by
    rintro rfl
    rcases hex with hroot | hfolder
    · exact inFolder_ne_nil (isValidName_ne_nil hname) hroot
    · exact absurd (hfile.symm.trans hfolder) (by decide)
  have htnew : target ≠ inFolder target m := (inFolder_ne_folder hmne).symm
  have hmetanew : target = [] → inFolder target m ≠ ascii "metadata" := fun _ =>
    freeTarget_ne_metadata hmeta hfree
  have hmetaold : target = [] → inFolder source filename ≠ ascii "metadata" := by
    intro hroot heq
    obtain ⟨-, hn⟩ := eq_nil_of_inFolder heq
    exact hmeta (by rw [hroot, hn]; rfl)
  have hlist : t.row b (metaCol target) = some listing := by
    rw [relocateFile_listing ht htold htnew (metaCol_ne hold hmetaold) (metaCol_ne hnew hmetanew),
      hlisting]
  rw [Tablet.text_of_row hlist, joinStorage_concat hcomma] at hremove
  have hput : (t.put b (metaCol target) (listing ++ 44 :: inFolder target m)).row b
      (metaCol target) = some (listing ++ 44 :: inFolder target m) := by
    rw [Tablet.row_put, Function.update_self]
  have hsame' : source = target → isErr (joinStorage (keptEntries (inFolder source filename)
      listing ++ [inFolder target m])) = false := by
    intro hst
    rcases hwhich with hv | ⟨i, hv⟩
    · exact absurd (hv.trans (by rw [hst])) hne
    · rw [hv]
      exact hsame hst i
  obtain ⟨v', hv', herr', hmem, hmem'⟩ :=
    exists_listing_of_removeEntry hne hcomma hput herr hsame' hremove
  obtain ⟨s, hs, hrow⟩ := @run_removeEntry b master (t.put b (metaCol target)
    (listing ++ 44 :: inFolder target m)) source (inFolder source filename)
  obtain ⟨-, rfl⟩ := Prod.mk.inj (hs.symm.trans hremove)
  have hmarker : ∀ n', isValidName n' = true → inFolder target n' ≠ metaCol target →
      s.row b (inFolder target n') = t.row b (inFolder target n') := by
    intro n' hn' hne'
    have hne'' : inFolder target n' ≠ metaCol source := by
      intro heq
      refine metaCol_ne (IsPath.inFolder htarget hn').notMem_dash (fun hroot heq' => hne' ?_)
        heq.symm
      obtain ⟨hroot', -⟩ := eq_nil_of_inFolder heq'
      rw [heq, hroot, hroot']
    rw [hrow, Function.update_of_ne hne'', Tablet.row_put, Function.update_of_ne hne']
  refine ⟨_, rfl, visible_of_rows hup htarget hv' herr' ?_ ?_ ?_ ?_⟩
  · refine existing_of_removeEntry hold (hex.imp_right fun hrow' => ?_) hremove
    have htdash : 45 ∉ target := by
      rcases htarget with rfl | htarget
      · exact List.not_mem_nil
      · exact htarget.notMem_dash
    rw [Tablet.row_put, Function.update_of_ne metaCol_ne_self.symm,
      relocateFile_marker ht htdash htold htnew, hrow']
  · exact ⟨_, hmem, inFolder_ne_nil hmne, afterLast_inFolder hm⟩
  · rw [hmarker m hm (metaCol_ne hnew hmetanew).symm, relocateFile_new ht hne]
    rfl
  · intro n' hn' hmoves hlive hne'
    refine ⟨?_, fun v₀ hv₀ _ e he _ hlast => ?_⟩
    · rw [hmarker n' hn' hne', relocateFile_marker ht (IsPath.inFolder htarget hn').notMem_dash
        hmoves fun heq => hnot (heq ▸ hlive)]
    · obtain rfl : v₀ = listing := Option.some.inj (hv₀.symm.trans hlisting)
      refine hmem' e he fun hst heq => hmoves ?_
      have hnn : n' = filename := by rw [← hlast, heq, afterLast_inFolder hname]
      exact show inFolder target n' = inFolder source filename by rw [hnn, hst]

/-- A listing with an entry put behind it: it can be read, has the entry, and has lost none. -/
theorem exists_listing_of_added {t : Tablet} {c entry : Bytes} (hcomma : 44 ∉ entry)
    (hread : (∀ v, t.row b c = some v → isErr v = true ∨ v = []) → isErr entry = false) :
    ∃ v', (if isErr (t.text b c) ∨ t.text b c = [] then entry
        else t.text b c ++ 44 :: entry) = v' ∧
      isErr v' = false ∧ entry ∈ splitStringStorage v' ∧
      ∀ v, t.row b c = some v → isErr v = false → ∀ e ∈ splitStringStorage v, e ≠ [] →
        e ∈ splitStringStorage v' := by
  have hself : entry ∈ splitStringStorage entry := by
    rw [splitStringStorage_of_notMem hcomma]
    exact List.mem_cons_self
  split_ifs with htext
  · refine ⟨_, rfl, hread fun v hv => ?_, hself, fun v hv herr e he hne => ?_⟩
    · rwa [Tablet.text_of_row hv] at htext
    · rw [Tablet.text_of_row hv, herr] at htext
      have hnil : e = [] := by simpa [htext.resolve_left (by decide), splitStringStorage] using he
      exact absurd hnil hne
  · obtain ⟨herr, hne⟩ := not_or.mp htext
    rw [Bool.not_eq_true] at herr
    have hv := (Tablet.text_eq_iff herr).mp (rfl : t.text b c = _)
    refine ⟨_, rfl, isErr_append_comma hne herr _, mem_split_append.mpr (Or.inr hself), ?_⟩
    intro v hv' _ e he _
    obtain rfl : t.text b c = v := Option.some.inj (hv.symm.trans hv')
    exact mem_split_append.mpr (Or.inl he)

/-- A folder that was moved is visible. -/
theorem visible_moveFolder (hup : master.Up) {fuel : ℕ} {folder n target : Bytes} {page : Page}
    (hblank : Blank (kvs.row b)) (hfolder : IsFolderPath folder) (hn : isValidName n = true)
    (htarget : IsFolderPath target) (hlive : kvs.row b (inFolder folder n) = some kvFolder)
    (hex : Existing (kvs.row b) target) (htidy : Tidy (kvs.row b) (inFolder folder n))
    (hfree : Free (kvs.row b) (inFolder target n)) (hmeta : inFolder target n ≠ ascii "metadata")
    (hread : (∀ v, kvs.row b (metaCol target) = some v → isErr v = true ∨ v = []) →
      isErr (inFolder target n) = false)
    (hrun : (webStorageMoveFolder b fuel (inFolder folder n) target).run (Call.exec master) kvs =
      (.ok (.ok page), kvs')) :
    page.placed = some (target, inFolder target n, .folder) ∧
      Visible master b (.moveFolder (inFolder folder n) target) kvs kvs' target
        (inFolder target n) .folder := by
  have hold := IsPath.inFolder hfolder hn
  have hnew := IsPath.inFolder htarget hn
  rcases run_moveFolder hn hrun with ⟨-, href⟩ | ⟨hguard, -, hpage, t, ht, hremove⟩
  · exact absurd rfl (href page)
  obtain rfl := Answer.ok.inj hpage
  have happart := apart_of_guard hold htarget hn hlive hfree hguard
  have hst : folder ≠ target := by
    rintro rfl
    exact hfree _ hold (Under.refl _) (Or.inr hlive)
  have hkeeps : KeepsOutside (inFolder folder n) (inFolder target n) (kvs.row b) (t.row b) := by
    have h := @safeMove_moveTree .relocate b master fuel _ _ hold hnew happart kvs hblank hlive
      htidy
    rwa [ht] at h
  -- nothing of the target itself is moved
  have habove : ¬Under (inFolder folder n) target := by
    intro hu
    rcases htarget with rfl | hpath
    · exact hold.not_under_blank (by simp) hu
    · exact happart.1 (hu.trans (hpath.under_inFolder n))
  have hlisting : t.row b (metaCol target) = kvs.row b (metaCol target) := by
    refine hkeeps _ (fun hu => ?_) (not_under_metaCol fun hroot heq => hmeta ?_)
    · rcases under_metaCol hold htarget hu with ⟨-, hu⟩ | ⟨rfl, heq⟩
      · exact habove hu
      · exact hst (eq_nil_of_inFolder heq).1
    · rw [hroot, heq, inFolder_nil]
  rw [← hlisting] at hread
  obtain ⟨v', hv', herr', hmem, hmem'⟩ := exists_listing_of_added hnew.notMem_comma hread
  rw [hlisting] at hmem'
  rw [hv'] at hremove
  obtain ⟨s, hs, hrow⟩ := @run_removeEntry b master (t.put b (metaCol target) v') folder
    (inFolder folder n)
  obtain ⟨-, rfl⟩ := Prod.mk.inj (hs.symm.trans hremove)
  have hkeeps' : ∀ c, c ≠ metaCol folder → c ≠ metaCol target → s.row b c = t.row b c := by
    intro c h1 h2
    rw [hrow, Function.update_of_ne h1, Tablet.row_put, Function.update_of_ne h2]
  have hnew' : s.row b (metaCol target) = some v' := by
    rw [hrow, Function.update_of_ne fun heq => hst (metaCol_inj heq).symm, Tablet.row_put,
      Function.update_self]
  refine ⟨?_, visible_of_rows hup htarget hnew' herr' ?_ ?_ ?_ ?_⟩
  · rw [Page.placed, afterLast_inFolder hn]
  · refine existing_of_removeEntry hold.notMem_dash (hex.imp_right fun hrow' => ?_) hremove
    rw [Tablet.row_put, Function.update_of_ne metaCol_ne_self.symm,
      hkeeps target habove (not_under_inFolder_self (isValidName_ne_nil hn)), hrow']
  · exact ⟨_, hmem, inFolder_ne_nil (isValidName_ne_nil hn), afterLast_inFolder hn⟩
  · rw [hkeeps' _ (metaCol_ne hnew.notMem_dash fun _ => hmeta).symm
      (metaCol_ne hnew.notMem_dash fun _ => hmeta).symm,
      moveTree_new hold hnew happart hblank hlive htidy ht]
    rfl
  · intro m hm _ hlive' hne'
    have hpath := IsPath.inFolder htarget hm
    have hmfolder : inFolder target m ≠ metaCol folder := by
      refine (metaCol_ne hpath.notMem_dash fun hroot heq => hst ?_).symm
      rw [hroot, (eq_nil_of_inFolder heq).1]
    have hmn : n ≠ m := by
      rintro rfl
      exact hfree _ hpath (Under.refl _) hlive'
    refine ⟨?_, fun v hv herr e he hne _ => hmem' v hv herr e he hne⟩
    rw [hkeeps' _ hmfolder hne']
    refine hkeeps _ (fun hu => ?_) (not_under_inFolder hm hmn)
    rcases under_inFolder htarget hm hu with heq | ⟨-, hu⟩
    · refine hst ?_
      rw [← @beforeLast_inFolder folder n hn, ← heq, beforeLast_inFolder hm]
    · exact habove hu

/-- **Items stay visible where they were put.** In every row that is reached, a request
that puts an item into a folder, finds there what it relies on and is answered with
a 200 makes the item visible, and leaves visible what was. -/
theorem visible_of_placeable {kvs₀ : Tablet} (hup : master.Up) (h0 : ∀ c, kvs₀.row b c = none)
    (h : Runs.Reaches (StorageRequest.step master b) (fun _ e => e.2.Valid) kvs₀ kvs)
    (hr : r.Valid) (hadds : r.Adds) (hex : r.Exists (kvs.row b)) (hplace : r.Placeable (kvs.row b))
    {fuel : ℕ} {page : Page}
    (hrun : (r.handler b fuel).run (Call.exec master) kvs = (.ok (.ok page), kvs'))
    {folder path : Bytes} {k : Kind} (hplaced : page.placed = some (folder, path, k)) :
    Visible master b r kvs kvs' folder path k := by
  have hblank := blank_of_reaches h0 h
  cases r with
  | list folder => exact hadds.elim
  | delete path => exact hadds.elim
  | renameFile folder oldName newName => exact hadds.elim
  | renameFolder path newName => exact hadds.elim
  | upload folder filename fileData =>
    obtain ⟨path, hpage, hvisible⟩ := visible_upload hup hr.1 hr.2 hex hplace hrun
    obtain ⟨rfl, rfl, rfl⟩ : _ ∧ _ ∧ _ := by simpa using hpage.symm.trans hplaced
    exact hvisible
  | createFolder parent name =>
    obtain ⟨hpage, hvisible⟩ := visible_createFolder hup hr.1 hr.2 hex hplace.1 hplace.2 hrun
    obtain ⟨rfl, rfl, rfl⟩ : _ ∧ _ ∧ _ := by simpa using hpage.symm.trans hplaced
    exact hvisible
  | moveFile source filename target =>
    obtain ⟨path, hpage, hvisible⟩ := visible_moveFile hup hr.1 hr.2.1 hr.2.2 hex hplace hrun
    obtain ⟨rfl, rfl, rfl⟩ : _ ∧ _ ∧ _ := by simpa using hpage.symm.trans hplaced
    exact hvisible
  | moveFolder source target =>
    obtain ⟨folder', n, hfolder, hn, rfl⟩ := hr.1.exists_inFolder
    obtain ⟨htidy, hfree, hmeta, hread⟩ := hplace
    rw [afterLast_inFolder hn] at hfree hmeta hread
    obtain ⟨hpage, hvisible⟩ := visible_moveFolder hup hblank hfolder hn hr.2 hex.1 hex.2 htidy
      hfree hmeta hread hrun
    obtain ⟨rfl, rfl, rfl⟩ : _ ∧ _ ∧ _ := by simpa using hpage.symm.trans hplaced
    exact hvisible

end Visible

/-! ### A folder that is not shown -/

/-- Ann has looked at her storage. -/
def lookedAt : Tablet := StorageRequest.step Master.first annsRow ∅ (0, .list [])

example : lookedAt.row annsRow (metaCol []) = some [] := by decide +kernel

/-- A folder made then is visible. -/
theorem created_visible : Visible Master.first annsRow (.createFolder [] (ascii "a")) lookedAt
    (StorageRequest.step Master.first annsRow lookedAt (0, .createFolder [] (ascii "a"))) []
    (ascii "a") .folder := by
  have hreach : Runs.Reaches (StorageRequest.step Master.first annsRow) (fun _ e => e.2.Valid) ∅
      lookedAt := (Runs.Reaches.refl ∅).tail (Or.inl rfl : StorageRequest.Valid (.list []))
  have hread : lookedAt.row annsRow (metaCol []) = some [] := by decide +kernel
  have hrun : ((StorageRequest.handler annsRow 0 (.createFolder [] (ascii "a"))).run
      (Call.exec Master.first) lookedAt).1 =
      .ok (.ok (.folderCreated (ascii "a") [] (ascii "a"))) := by decide +kernel
  have hplace : StorageRequest.Placeable (lookedAt.row annsRow) (.createFolder [] (ascii "a")) :=
    ⟨⟨[], hread, rfl, fun _ => by decide⟩, by decide⟩
  exact visible_of_placeable (r := .createFolder [] (ascii "a")) Master.up_first (fun _ => rfl)
    hreach ⟨Or.inl rfl, by decide⟩ trivial (Or.inl rfl) hplace (Prod.ext hrun rfl) rfl

/-- **A folder that is made before the root was looked at is not shown**: the request
is answered with a 200, and the listing begins with the text of an error. -/
theorem created_not_visible : ∃ page kvs',
    StorageRequest.Valid (.createFolder [] (ascii "a")) ∧
    StorageRequest.Exists ((∅ : Tablet).row annsRow) (.createFolder [] (ascii "a")) ∧
    (StorageRequest.handler annsRow 0 (.createFolder [] (ascii "a"))).run (Call.exec Master.first)
      ∅ = (.ok (.ok page), kvs') ∧
    page.placed = some ([], ascii "a", .folder) ∧
    ¬Visible Master.first annsRow (.createFolder [] (ascii "a")) ∅ kvs' [] (ascii "a") .folder := by
  have hrun : ((webStorageCreateFolder annsRow [] (ascii "a")).run (Call.exec Master.first) ∅).1 =
      .ok (.ok (.folderCreated (ascii "a") [] (ascii "a"))) := by decide +kernel
  refine ⟨_, _, ⟨Or.inl rfl, by decide⟩, Or.inl rfl, Prod.ext hrun rfl, rfl, fun hvisible => ?_⟩
  obtain ⟨⟨n, -, hshown⟩, -⟩ := hvisible
  have hnone : shown Master.first annsRow ((webStorageCreateFolder annsRow [] (ascii "a")).run
      (Call.exec Master.first) ∅).2 [] = [] := by decide +kernel
  exact absurd (hnone ▸ hshown) List.not_mem_nil

end PennCloud
