import PennCloud.Frontend.Storage.Contents
import PennCloud.Frontend.Storage.Values

/-!
# Uploads

What an upload stores, and where. A name that is taken gets a number, which goes before
the first dot of the whole path: with a dot in the folder the number ends up there, and
without any dot there is no place for it (`PennCloud.upload_freeSibling_iff`). The path
that is chosen is one where no file is, but there may be a folder. What comes back from a
download is what the list of chunks at the path says, with the texts of errors in it
(`PennCloud.upload_comesBack_iff`).
-/

namespace PennCloud

open Wire Calls Text

variable {master : Master} {kvs : Tablet} {b : Bytes}

/-! ### The name of an upload -/

section Naming

variable {folder filename fname v : Bytes}

/-- A path for a file whose name is taken: in the same folder, with the same extension,
and free. -/
def FreeSibling (R : Row) (folder filename v : Bytes) : Prop :=
  ∃ n, 47 ∉ n ∧ v = inFolder folder n ∧ extension n = extension filename ∧ ¬Live R v

/-- A number does not change the extension. -/
theorem extension_variantPath {n : Bytes} (hn : isValidName n = true) (hdot : 46 ∈ n) (i : ℕ) :
    extension (variantPath n i) = extension n := by
  rcases isValidName_iff.mp hn with h | ⟨a, c, rfl, ha, hc⟩
  · exact absurd hdot (notMem_of_isSegment h)
  · rw [variantPath_append (notMem_of_isSegment ha), extension_append hc, extension_append hc]

/-- With a dot in the folder, the number changes the folder. -/
theorem variantPath_ne_inFolder (hdot : 46 ∈ folder) (hname : isValidName filename = true) (i : ℕ)
    {n : Bytes} (hn : 47 ∉ n) : variantPath (inFolder folder filename) i ≠ inFolder folder n := by
  obtain ⟨u, w, rfl, hu⟩ := List.eq_append_cons_of_mem hdot
  have hne : u ++ 46 :: w ≠ [] := by simp
  have hvariant : variantPath (inFolder (u ++ 46 :: w) filename) i =
      (u ++ parenthesized i ++ 46 :: w) ++ 47 :: filename := by
    have hassoc : u ++ 46 :: w ++ 47 :: filename = u ++ 46 :: (w ++ 47 :: filename) := by simp
    rw [inFolder, if_neg hne, hassoc, variantPath_append hu]
    simp
  intro heq
  rw [hvariant, inFolder, if_neg hne] at heq
  have hfolder := congrArg (beforeLast 47) heq
  rw [beforeLast_append _ (notMem_of_isValidName hname), beforeLast_append _ hn] at hfolder
  have hlen := congrArg List.length hfolder
  simp [parenthesized, ascii] at hlen
  omega

/-- What is stored is said in the answer. -/
theorem exists_run_storeUpload (master : Master) (kvs : Tablet) (b folder fname path : Bytes)
    (fileData : Bytes) : ∃ s : Tablet, (storeUpload b folder fname path fileData).run
      (Call.exec master) kvs = (.ok (.ok (.uploaded fname folder path)), s) := by
  have hreturns : (storeUpload b folder fname path fileData).Returns
      fun a => a = .ok (.uploaded fname folder path) :=
    fun _ => Prog.Returns.then (storeChunks b path _ 1 _) fun _ _ _ => rfl
  have hends : (storeUpload b folder fname path fileData).Ends (Call.exec master) kvs :=
    (total_storeUpload folder fname path fileData).ends kvs
  obtain ⟨a, ha⟩ := hends
  exact ⟨_, Prod.ext (hreturns.run _ ha ▸ ha) rfl⟩

/-- An upload of a name that is taken: the loop, and then the file is stored at the first
variant that is not a file. -/
theorem run_upload_taken {fuel : ℕ} {page : Page} {s : Tablet} {fileData : Bytes}
    (hfile : kvs.row b (inFolder folder filename) = some kvFile)
    (h : (webStorageUpload b fuel folder filename fileData).run (Call.exec master) kvs =
      (.ok (.ok page), s)) :
    ∃ i, 1 ≤ i ∧ 46 ∈ inFolder folder filename ∧
      page = .uploaded (filename ++ parenthesized i) folder
        (variantPath (inFolder folder filename) i) ∧
      kvs.row b (variantPath (inFolder folder filename) i) ≠ some kvFile ∧
      ∀ j, 1 ≤ j → j < i → kvs.row b (variantPath (inFolder folder filename) j) = some kvFile := by
  rcases run_onWorker h with ⟨-, href⟩ | hrun
  · exact absurd rfl (href page)
  · split_ifs at hrun
    · exact absurd rfl ((refused_of_run hrun).2 page)
    · rw [run_Get_bind, if_pos (Tablet.text_of_row hfile)] at hrun
      obtain ⟨i, t, hi, hstore⟩ := Prog.run_bind_ok _ hrun
      obtain ⟨rfl, hdot, hle, hne, hall⟩ := run_freeUpload hi
      obtain ⟨u, hu⟩ := exists_run_storeUpload master t b folder (filename ++ parenthesized i)
        (variantPath (inFolder folder filename) i) fileData
      have hpage := Except.ok.inj (Prod.mk.inj (hstore.symm.trans hu)).1
      exact ⟨i, hle, hdot, Answer.ok.inj hpage, hne, hall⟩

/-- **When a name that is taken is replaced well**: the folder has no dot, the name has
one, and the first of its variants that is not a file is not a folder either. -/
theorem upload_freeSibling_iff (hreached : Reached master b)
    (hname : isValidName filename = true)
    (hfile : kvs.row b (inFolder folder filename) = some kvFile) (fileData : Bytes) :
    (∃ fuel fname v s,
      (webStorageUpload b fuel folder filename fileData).run (Call.exec master) kvs =
        (.ok (.ok (.uploaded fname folder v)), s) ∧ FreeSibling (kvs.row b) folder filename v) ↔
      46 ∉ folder ∧ 46 ∈ filename ∧
        ∀ i, 1 ≤ i → (∀ j, 1 ≤ j → j < i →
            kvs.row b (variantPath (inFolder folder filename) j) = some kvFile) →
          kvs.row b (variantPath (inFolder folder filename) i) ≠ some kvFolder := by
  constructor
  · rintro ⟨fuel, fname, v, s, hrun, n, hn, hv, -, hlive⟩
    obtain ⟨i, hi, hdot, hpage, hne, hall⟩ := run_upload_taken hfile hrun
    obtain ⟨rfl, -, rfl⟩ := Page.uploaded.inj hpage
    have hfolder : 46 ∉ folder := fun hmem => variantPath_ne_inFolder hmem hname i hn hv
    refine ⟨hfolder, dot_mem_of_inFolder hfolder hdot, fun j hj hfiles hjf => ?_⟩
    -- the first variant that is not a file is the one that was chosen
    rcases Nat.lt_trichotomy j i with hlt | rfl | hlt
    · have hjfile := hall j hj hlt
      rw [hjf] at hjfile
      exact absurd (Option.some.inj hjfile) (by decide)
    · exact hlive (Or.inr hjf)
    · exact hne (hfiles i hi hlt)
  · rintro ⟨hfolder, hdot, hfirst⟩
    have hworker : isErr (clientText (master b)) = false := hreached
    have hdot' : 46 ∈ inFolder folder filename := by
      rw [inFolder]
      split_ifs
      · exact hdot
      · exact List.mem_append_right _ (List.mem_cons_of_mem _ hdot)
    obtain ⟨fuel, i, hi⟩ := freeUpload_ends master kvs b hdot'
    obtain ⟨-, -, hle, hne, hall⟩ := run_freeUpload hi
    obtain ⟨s, hs⟩ := exists_run_storeUpload master kvs b folder (filename ++ parenthesized i)
      (variantPath (inFolder folder filename) i) fileData
    refine ⟨fuel, filename ++ parenthesized i, _, s, ?_, variantPath filename i, ?_,
      variantPath_inFolder hfolder i, extension_variantPath hname hdot i, fun hlive => ?_⟩
    · rw [webStorageUpload, onWorker, run_lookup_bind, if_neg (by simp [hworker]),
        if_neg (by simp [hname]), run_Get_bind, if_pos (Tablet.text_of_row hfile),
        Prog.run_bind_of_ok _ hi]
      exact hs
    · exact notMem_of_isValidName (isValidName_variantPath hname hdot i)
    · rcases hlive with hlive | hlive
      · exact hne hlive
      · exact hfirst i hle (fun j h1 h2 => hall j h1 h2) hlive

/-- Ann has a file `a.txt`. -/
def textFile : Tablet := Tablet.put ∅ annsRow (ascii "a.txt") kvFile

/-- Another one finds a name. -/
theorem textFile_freeSibling : ∃ fuel fname v s,
    (webStorageUpload annsRow fuel [] (ascii "a.txt") (ascii "x")).run (Call.exec Master.first)
        textFile = (.ok (.ok (.uploaded fname [] v)), s) ∧
      FreeSibling (textFile.row annsRow) [] (ascii "a.txt") v := by
  have hnone : ∀ c ∈ textFile.columns annsRow, textFile.row annsRow c ≠ some kvFolder := by
    decide +kernel
  have hreached : Reached Master.first annsRow := by
    rw [Reached]
    decide
  refine (upload_freeSibling_iff hreached (by decide) (by decide +kernel) _).mpr
    ⟨by decide, by decide, fun i _ _ hfolder => ?_⟩
  exact hnone _ (Tablet.mem_columns.mpr (by simp [hfolder])) hfolder

/-- Ann has a file `notes` at the root and a file `a.txt` in a folder `v1.0`. -/
def dottedFolder : Tablet :=
  [(0, .list []), (0, .upload [] (ascii "notes") (ascii "x")),
    (0, .createFolder [] (ascii "v1.0")),
    (0, .upload (ascii "v1.0") (ascii "a.txt") (ascii "y"))].foldl
    (StorageRequest.step Master.first annsRow) ∅

/-- **A second file throws, or lands elsewhere**: without an extension there is no place for
the number, and with a dot in the folder it goes there. -/
theorem upload_misplaced :
    dottedFolder.row annsRow (ascii "notes") = some kvFile ∧
    ((webStorageUpload annsRow 1 [] (ascii "notes") (ascii "z")).run (Call.exec Master.first)
      dottedFolder).1 = .error .outOfRange ∧
    dottedFolder.row annsRow (ascii "v1.0/a.txt") = some kvFile ∧
    ((webStorageUpload annsRow 1 (ascii "v1.0") (ascii "a.txt") (ascii "z")).run
      (Call.exec Master.first) dottedFolder).1 =
        .ok (.ok (.uploaded (ascii "a.txt(1)") (ascii "v1.0") (ascii "v1(1).0/a.txt"))) ∧
    beforeLast 47 (ascii "v1(1).0/a.txt") ≠ ascii "v1.0" := by
  decide +kernel

end Naming

/-! ### Contents are never empty -/

/-- A content is not empty. -/
def FullContent (column value : Bytes) : Prop := IsContent column → value ≠ []

/-- No content is empty. -/
def FullContents (R : Row) : Prop := ∀ c, IsContent c → R c ≠ some []

theorem fullContents_iff {R : Row} : FullContents R ↔ Holds FullContent R := by
  constructor
  · rintro h c v hv hc rfl
    exact h c hc hv
  · exact fun h c hc hnil => h c [] hnil hc rfl

theorem NotFound.ne_nil {text : Bytes} (h : NotFound text) : text ≠ [] := by
  rcases h with rfl | rfl <;> decide

theorem ne_nil_of_read {c text : Bytes} (hc : IsContent c)
    (h : FullContent c text ∨ NotFound text) :
    text ≠ [] :=
  h.elim (fun hfull => hfull hc) NotFound.ne_nil

namespace FullContent

theorem notContent_metaCol (folder : Bytes) {v : Bytes} : IsContent (metaCol folder) → v ≠ [] :=
  fun hc => absurd hc (not_isContent_metaCol folder)

theorem notContent_metadata (p : Bytes) {v : Bytes} : IsContent (p ++ ascii "-metadata") → v ≠ [] :=
  fun hc => absurd hc (not_isContent_metadata p)

theorem moveChunks (old new : Bytes) (chunks : List Bytes) :
    Keeps b FullContent (moveChunks b old new chunks) := by
  induction chunks with
  | nil => exact trivial
  | cons chunk chunks ih =>
    rw [PennCloud.moveChunks]
    refine .ite (fun _ => trivial) fun _ => .get fun content hcontent => ?_
    exact .put (fun _ => ne_nil_of_read (isContent_append chunk) hcontent) fun _ =>
      .delete fun _ => ih.bind fun _ => trivial

theorem relocateFile (old new : Bytes) : Keeps b FullContent (relocateFile b old new) := by
  have hcontent : Keeps b FullContent (moveContent b old new) := by
    refine .get fun _ _ => .ite (fun _ => ?_) fun _ => .get fun content hcontent => ?_
    · exact (moveChunks old new _).bind fun _ => .put (notContent_metadata new) fun _ =>
        .delete fun _ => trivial
    · exact .put (fun _ => ne_nil_of_read (isContent_append old) hcontent) fun _ =>
        .delete fun _ => trivial
  exact hcontent.bind fun _ => .put (fun _ => by decide) fun _ => .delete fun _ => trivial

theorem deleteRec (fuel : ℕ) (path : Bytes) : Keeps b FullContent (deleteRec b fuel path) := by
  induction fuel generalizing path with
  | zero => exact trivial
  | succ fuel ih =>
    refine .get fun _ _ => .ite (fun _ => ?_) fun _ => .put (fun _ => by decide) fun _ =>
      .get fun _ _ => .delete fun _ =>
      .ite (fun _ => .each fun child _ => ih child) fun _ => trivial
    have hchunks : Keeps b FullContent (deleteChunks b path) := by
      refine .get fun _ _ => .ite (fun _ => ?_) fun _ => trivial
      exact .bind (.each fun chunk _ => .delete fun _ => trivial) fun _ =>
        .delete fun _ => trivial
    exact hchunks.bind fun _ => .delete fun _ => .delete fun _ => trivial

theorem moveTree (k : TreeMove) (fuel : ℕ) (old new : Bytes) :
    Keeps b FullContent (moveTree k b fuel old new) := by
  induction fuel generalizing old new with
  | zero => exact trivial
  | succ fuel ih =>
    refine .get fun _ _ => .put (fun _ => by decide) fun _ =>
      .put (notContent_metadata new) fun _ => .put (fun _ => by decide) fun _ =>
      .delete fun _ => .each fun e _ => ?_
    exact .get fun _ _ => .ite (fun _ => ih e _) fun _ => .ite (fun _ => relocateFile e _) fun _ =>
      trivial

theorem removeEntry (folder entry : Bytes) : Keeps b FullContent (removeEntry b folder entry) :=
  .get fun _ _ => .ite (fun _ => .delete fun _ => trivial) fun _ =>
    .put (notContent_metaCol folder) fun _ => trivial

theorem storeChunks (path : Bytes) (rounds i : ℕ) (rest : Bytes) :
    Keeps b FullContent (storeChunks b path rounds i rest) := by
  induction rounds generalizing i rest with
  | zero => exact trivial
  | succ rounds ih =>
    rw [PennCloud.storeChunks]
    refine .ite (fun _ => trivial) fun hrest => .get fun _ _ =>
      .put (notContent_metadata path) fun _ =>
      .put (fun _ hnil => hrest ?_) fun _ => ih (i + 1) _
    exact (List.take_eq_nil_iff.mp hnil).resolve_left (by decide)

theorem storeUpload (folder filename path fileData : Bytes) :
    Keeps b FullContent (storeUpload b folder filename path fileData) :=
  .put (fun _ => by decide) fun _ => (storeChunks path _ _ _).bind fun _ => .get fun _ _ =>
    .ask_bind (fun _ hc => absurd hc (not_isContent_metaCol folder)) fun _ _ => trivial

/-- **No request writes an empty content.** -/
theorem handler (r : StorageRequest) (fuel : ℕ) : Keeps b FullContent (r.handler b fuel) := by
  cases r with
  | list folder =>
    refine .onWorker (.get fun listing _ => .bind ?_ fun _ => ?_)
    · exact .ite (fun _ => .put (notContent_metaCol folder) fun _ => trivial) fun _ => trivial
    · exact .ite (fun _ => Keeps.of_reads (reads_listPage folder listing)) fun _ => .get fun _ _ =>
        .ite (fun _ => trivial) fun _ => Keeps.of_reads (reads_listPage folder listing)
  | upload folder filename fileData =>
    refine .onWorker (.ite (fun _ => trivial) fun _ => .get fun _ _ => .ite (fun _ => ?_) fun _ =>
      storeUpload folder filename _ fileData)
    exact (Keeps.of_reads (reads_freeUpload _ _ _)).bind fun i => storeUpload folder _ _ fileData
  | createFolder parent name =>
    have hmake : Keeps b FullContent (makeFolder b parent name (inFolder parent name)) :=
      .put (fun _ => by decide) fun _ => .put (notContent_metadata _) fun _ => trivial
    exact .onWorker (.ite (fun _ => trivial) fun _ =>
      .get fun _ _ => .ite (fun _ => trivial) fun _ =>
      .get fun _ _ => .ite (fun _ => hmake) fun _ =>
      .put (notContent_metaCol parent) fun _ => hmake)
  | delete path =>
    exact .onWorker (.get fun _ _ => .put (notContent_metaCol _) fun _ =>
      (deleteRec fuel path).bind fun _ => .get fun _ _ => trivial)
  | renameFile folder oldName newName =>
    exact .onWorker (.ite (fun _ => trivial) fun _ =>
      .get fun _ _ => .ite (fun _ => trivial) fun _ => (relocateFile _ _).bind fun _ =>
      .get fun _ _ => .put (notContent_metaCol folder) fun _ => trivial)
  | renameFolder path newName =>
    refine .onWorker (.ite (fun _ => trivial) fun _ =>
      .get fun _ _ => .ite (fun _ => trivial) fun _ =>
      .get fun _ _ => .put (notContent_metaCol _) fun _ => .bind ?_ fun _ => trivial)
    rw [renameFolderRec_eq]
    exact moveTree _ fuel _ _
  | moveFile source filename target =>
    refine .onWorker (.ite (fun _ => trivial) fun _ => .bind ?_ fun _ => trivial)
    exact (Keeps.of_reads (reads_freeTarget _ _ _ _ _ _)).bind fun v =>
      (relocateFile _ v).bind fun _ => .get fun _ _ =>
      .put (notContent_metaCol target) fun _ => (removeEntry _ _).bind fun _ => trivial
  | moveFolder source target =>
    refine .onWorker (.ite (fun _ => trivial) fun _ =>
      .get fun _ _ => .ite (fun _ => trivial) fun _ =>
      .ite (fun _ => trivial) fun _ => .bind ?_ fun _ => trivial)
    rw [moveFolder, renameFolderMoveRec_eq]
    exact (moveTree _ fuel _ _).bind fun _ => .get fun _ _ =>
      .put (notContent_metaCol target) fun _ => removeEntry _ _

end FullContent

theorem fullContents_of_reaches {kvs₀ : Tablet} {ok : Tablet → StorageEvent → Prop}
    (h0 : ∀ c, kvs₀.row b c = none)
    (h : Runs.Reaches (StorageRequest.step master b) ok kvs₀ kvs) : FullContents (kvs.row b) :=
  h.invariant (P := fun s : Tablet => FullContents (s.row b)) (fun c _ => by simp [h0 c])
    fun s e hs _ =>
      fullContents_iff.mpr ((FullContent.handler e.2 e.1).run (fullContents_iff.mp hs))

/-! ### What is stored -/

section Stored

variable {path : Bytes}

/-- The text says that something was not found. -/
def SaysNotFound (text : Bytes) : Prop := (cut (ascii "not found") text).isSome = true

instance (text : Bytes) : Decidable (SaysNotFound text) := inferInstanceAs (Decidable (_ = _))

theorem saysNotFound_iff {text : Bytes} : SaysNotFound text ↔ ascii "not found" <:+: text :=
    isSome_cut

/-- The list of chunks with one more: begun anew when the text says that there is none. -/
def withChunk (text name : Bytes) : Bytes :=
  if SaysNotFound text then name else text ++ 44 :: name

/-- The pieces that are stored one by one. -/
def pieces : ℕ → Bytes → List Bytes
  | 0, _ => []
  | rounds + 1, rest =>
    if rest = [] then [] else rest.take chunkSize :: pieces rounds (rest.drop chunkSize)

theorem chunkSize_pos : 0 < chunkSize := by decide

theorem pieces_cons {rounds : ℕ} {rest : Bytes} (h : rest ≠ []) :
    pieces (rounds + 1) rest = rest.take chunkSize :: pieces rounds (rest.drop chunkSize) :=
  if_neg h

theorem flatten_pieces {rounds : ℕ} {rest : Bytes} (h : rest.length ≤ rounds) :
    (pieces rounds rest).flatten = rest := by
  induction rounds generalizing rest with
  | zero => exact (List.length_eq_zero_iff.mp (Nat.le_zero.mp h)).symm
  | succ rounds ih =>
    by_cases hnil : rest = []
    · rw [pieces, if_pos hnil, hnil, List.flatten_nil]
    · have hpos := List.length_pos_iff.mpr hnil
      have hlen : (rest.drop chunkSize).length ≤ rounds := by
        have := chunkSize_pos
        rw [List.length_drop]
        omega
      rw [pieces_cons hnil, List.flatten_cons, ih hlen, List.take_append_drop]

/-- There is more than one piece when the data are longer than a chunk. -/
theorem two_le_length_pieces {rounds : ℕ} {rest : Bytes} (h : rest.length ≤ rounds) :
    2 ≤ (pieces rounds rest).length ↔ chunkSize < rest.length := by
  rcases rounds with _ | rounds
  · have hnil := List.length_eq_zero_iff.mp (Nat.le_zero.mp h)
    simp [pieces, hnil]
  · by_cases hnil : rest = []
    · simp [pieces, hnil]
    · rw [pieces_cons hnil, List.length_cons]
      have hdrop : rest.drop chunkSize = [] ↔ rest.length ≤ chunkSize := List.drop_eq_nil_iff
      rcases rounds with _ | rounds
      · have hlen := List.length_pos_iff.mpr hnil
        have hsize : 1 < chunkSize := by decide
        simp only [pieces, List.length_nil]
        omega
      · by_cases hrest : rest.drop chunkSize = []
        · rw [pieces, if_pos hrest, List.length_nil]
          have := hdrop.mp hrest
          omega
        · rw [pieces_cons hrest, List.length_cons]
          have hlong := mt hdrop.mpr hrest
          omega

/-- **What the loop over the chunks does**: the pieces are stored under the names from
`i` on, and the list is extended by these. -/
theorem run_storeChunks_pieces (rounds i : ℕ) (rest : Bytes) :
    ∃ t : Tablet, (storeChunks b path rounds i rest).run (Call.exec master) kvs = (.ok (), t) ∧
      t.text b (path ++ ascii "-metadata") =
        ((List.range' i (pieces rounds rest).length).map (chunkName path)).foldl withChunk
          (kvs.text b (path ++ ascii "-metadata")) ∧
      ((List.range' i (pieces rounds rest).length).map fun j => t.text b (contentCol path j)) =
        pieces rounds rest ∧
      ∀ j < i, t.row b (contentCol path j) = kvs.row b (contentCol path j) := by
  induction rounds generalizing i rest kvs with
  | zero => exact ⟨kvs, rfl, rfl, rfl, fun _ _ => rfl⟩
  | succ rounds ih =>
    rw [storeChunks]
    by_cases hnil : rest = []
    · rw [if_pos hnil, pieces, if_pos hnil]
      exact ⟨kvs, rfl, rfl, rfl, fun _ _ => rfl⟩
    · -- the store after one chunk
      have hmeta : contentCol path i ≠ path ++ ascii "-metadata" := fun heq =>
        not_isContent_metadata path (heq ▸ isContent_append (chunkName path i))
      obtain ⟨t, ht, hlist, hpieces, hbefore⟩ := @ih ((kvs.put b (path ++ ascii "-metadata")
        (withChunk (kvs.text b (path ++ ascii "-metadata")) (chunkName path i))).put b
          (contentCol path i) (rest.take chunkSize)) (i + 1) (rest.drop chunkSize)
      have hfirst : t.text b (contentCol path i) = rest.take chunkSize := by
        refine Tablet.text_of_row ?_
        rw [hbefore i (Nat.lt_succ_self i), Tablet.row_put, Function.update_self]
      refine ⟨t, ?_, ?_, ?_, fun j hj => ?_⟩
      · rw [if_neg hnil]
        exact ht
      · have htext : ((kvs.put b (path ++ ascii "-metadata") (withChunk (kvs.text b
            (path ++ ascii "-metadata")) (chunkName path i))).put b (contentCol path i)
              (rest.take chunkSize)).text b (path ++ ascii "-metadata") =
                withChunk (kvs.text b (path ++ ascii "-metadata")) (chunkName path i) := by
          refine Tablet.text_of_row ?_
          rw [Tablet.row_put, Function.update_of_ne hmeta.symm, Tablet.row_put,
            Function.update_self]
        rw [hlist, htext, pieces_cons hnil, List.length_cons, List.range'_succ, List.map_cons,
          List.foldl_cons]
      · rw [pieces_cons hnil, List.length_cons, List.range'_succ, List.map_cons, hpieces, hfirst]
      · have hne : contentCol path j ≠ contentCol path i := fun heq =>
          absurd (contentCol_inj heq) (Nat.ne_of_lt hj)
        have hne' : contentCol path j ≠ path ++ ascii "-metadata" := fun heq =>
          not_isContent_metadata path (heq ▸ isContent_append (chunkName path j))
        rw [hbefore j (Nat.lt_succ_of_lt hj), Tablet.row_put, Function.update_of_ne hne,
          Tablet.row_put, Function.update_of_ne hne']

/-! ### The list of chunks -/

theorem saysNotFound_chunkName {i : ℕ} : SaysNotFound (chunkName path i) ↔ SaysNotFound path := by
  rw [saysNotFound_iff, saysNotFound_iff, chunkName_eq]
  constructor
  · intro h
    rcases infix_append_cons (by decide) h with h | h
    · exact h
    · -- what is behind the path has no letters
      have hmem : (110 : UInt8) ∈ 45 :: decimal i := h.subset (by decide)
      rcases List.mem_cons.mp hmem with heq | hmem
      · exact absurd heq (by decide)
      · exact absurd (isDigit_of_mem_decimal hmem) (by rw [IsDigit]; decide)
  · exact fun h => h.trans (List.infix_append' [] path _)

/-- A list says nothing when none of its two parts does. -/
theorem saysNotFound_append {v w : Bytes} :
    SaysNotFound (v ++ 44 :: w) ↔ SaysNotFound v ∨ SaysNotFound w := by
  rw [saysNotFound_iff, saysNotFound_iff, saysNotFound_iff]
  constructor
  · intro h
    refine (infix_append_cons (by decide) h).imp_right fun h' => ?_
    exact infix_of_append (s := [44]) (by decide) h'
  · rintro (h | h)
    · exact h.trans (List.infix_append' [] v _)
    · exact h.trans ⟨v ++ [44], [], by simp⟩

/-- A list that says nothing is extended. -/
theorem split_withChunk {text : Bytes} (hpath : 44 ∉ path) (h : ¬SaysNotFound path)
    (htext : ¬SaysNotFound text) (is : List ℕ) :
    splitStringStorage ((is.map (chunkName path)).foldl withChunk text) =
      splitStringStorage text ++ is.map (chunkName path) := by
  induction is generalizing text with
  | nil => exact (List.append_nil _).symm
  | cons i is ih =>
    have hnext : ¬SaysNotFound (text ++ 44 :: chunkName path i) := by
      rw [saysNotFound_append, saysNotFound_chunkName]
      exact not_or.mpr ⟨htext, h⟩
    rw [List.map_cons, List.foldl_cons, withChunk, if_neg htext, ih hnext,
      splitStringStorage_append, splitStringStorage_of_notMem (notMem_comma_chunkName hpath i),
      List.append_assoc]
    rfl

/-- With a path that says so itself, only the last chunk stays on the list. -/
theorem withChunk_of_saysNotFound (h : SaysNotFound path) {text : Bytes} (is : List ℕ) (i j : ℕ) :
    ((is ++ [i, j]).map (chunkName path)).foldl withChunk text = chunkName path j := by
  have hphrase : ∀ t, SaysNotFound (withChunk t (chunkName path i)) := by
    intro t
    rw [withChunk]
    split_ifs
    · exact saysNotFound_chunkName.mpr h
    · exact saysNotFound_append.mpr (Or.inr (saysNotFound_chunkName.mpr h))
  rw [List.map_append, List.foldl_append, List.map_cons, List.map_cons, List.map_nil,
    List.foldl_cons, List.foldl_cons, List.foldl_nil, withChunk, if_pos (hphrase _)]

/-! ### What is read -/

/-- What a download of a path reads: the texts of the contents on its list, which may be
texts of errors. -/
def bytesRead (kvs : Tablet) (b path : Bytes) : Bytes :=
  ((splitStringStorage (kvs.text b (path ++ ascii "-metadata"))).map fun chunk =>
    kvs.text b (chunk ++ ascii "-content")).flatten

theorem run_chunkContents (files : List Bytes) :
    (chunkContents b files).run (Call.exec master) kvs =
      (.ok (files.map fun chunk => kvs.text b (chunk ++ ascii "-content")).flatten, kvs) := by
  induction files with
  | nil => rfl
  | cons chunk files ih =>
    rw [chunkContents, run_Get_bind, Prog.run_bind_of_ok _ ih]
    rfl

theorem run_webStorageDownload (hreached : Reached master b) (folder filename : Bytes) :
    (webStorageDownload b folder filename).run (Call.exec master) kvs =
      (.ok (if bytesRead kvs b (inFolder folder filename) = [] then .notFound
        else .download filename (bytesRead kvs b (inFolder folder filename))), kvs) := by
  have hworker : isErr (clientText (master b)) = false := hreached
  rw [webStorageDownload, onWorkerFor, run_lookup_bind, if_neg (by simp [hworker]), run_Get_bind,
    Prog.run_bind_of_ok _ (run_chunkContents _), bytesRead]
  split_ifs <;> rfl

theorem bytesRead_of_split {t : Tablet} {is : List ℕ} {texts : List Bytes}
    (hlist : splitStringStorage (t.text b (path ++ ascii "-metadata")) =
      texts ++ is.map (chunkName path)) :
    bytesRead t b path = (texts.map fun chunk => t.text b (chunk ++ ascii "-content")).flatten ++
      (is.map fun j => t.text b (contentCol path j)).flatten := by
  rw [bytesRead, hlist, List.map_append, List.flatten_append, List.map_map]
  rfl

theorem length_of_mem_pieces {rounds : ℕ} {rest piece : Bytes} (h : piece ∈ pieces rounds rest) :
    piece.length ≤ chunkSize := by
  induction rounds generalizing rest with
  | zero => exact absurd h List.not_mem_nil
  | succ rounds ih =>
    rw [pieces] at h
    split_ifs at h
    · exact absurd h List.not_mem_nil
    · rcases List.mem_cons.mp h with rfl | h
      · exact List.length_take_le chunkSize rest
      · exact ih h

/-- Unless it is only the last chunk, all chunks are on the list, behind what was there. -/
theorem split_stored {text : Bytes} (hpath : 44 ∉ path) {m : ℕ} (h : SaysNotFound path → m = 0) :
    splitStringStorage (((List.range' 1 (m + 1)).map (chunkName path)).foldl withChunk text) =
      (if SaysNotFound text then [] else splitStringStorage text) ++
        (List.range' 1 (m + 1)).map (chunkName path) := by
  have hcomma := notMem_comma_chunkName hpath 1
  have hfirst : splitStringStorage (withChunk text (chunkName path 1)) =
      (if SaysNotFound text then [] else splitStringStorage text) ++ [chunkName path 1] := by
    rw [withChunk]
    split_ifs
    · exact splitStringStorage_of_notMem hcomma
    · rw [splitStringStorage_append, splitStringStorage_of_notMem hcomma]
  rw [List.range'_succ, List.map_cons, List.foldl_cons]
  by_cases hphrase : SaysNotFound path
  · rw [h hphrase]
    exact hfirst
  · have hnext : ¬SaysNotFound (withChunk text (chunkName path 1)) := by
      rw [withChunk]
      split_ifs with htext
      · rwa [saysNotFound_chunkName]
      · rw [saysNotFound_append, saysNotFound_chunkName]
        exact not_or.mpr ⟨htext, hphrase⟩
    rw [split_withChunk hpath hphrase hnext, hfirst, List.append_assoc]
    rfl

/-- **When what is stored is read again**: when there was no list before, and the path does
not make one disappear. -/
theorem bytesRead_stored_iff {t : Tablet} {part : Bytes} (hpath : 44 ∉ path) (hpart : part ≠ [])
    (hfull : FullContents (t.row b))
    (hlist : t.text b (path ++ ascii "-metadata") =
      ((List.range' 1 (pieces part.length part).length).map (chunkName path)).foldl withChunk
        (kvs.text b (path ++ ascii "-metadata")))
    (hpieces : ((List.range' 1 (pieces part.length part).length).map fun j =>
      t.text b (contentCol path j)) = pieces part.length part) :
    bytesRead t b path = part ↔ SaysNotFound (kvs.text b (path ++ ascii "-metadata")) ∧
      (SaysNotFound path → part.length ≤ chunkSize) := by
  have htwo := two_le_length_pieces (le_refl part.length)
  have hflat := flatten_pieces (le_refl part.length)
  obtain ⟨m, hm⟩ : ∃ m, (pieces part.length part).length = m + 1 := by
    refine Nat.exists_eq_succ_of_ne_zero fun h0 => hpart ?_
    rw [← hflat, List.length_eq_zero_iff.mp h0, List.flatten_nil]
  rw [hm] at hlist hpieces htwo
  by_cases hmany : SaysNotFound path ∧ chunkSize < part.length
  · -- only the last chunk is left on the list
    refine iff_of_false (fun heq => ?_) fun h => absurd (h.2 hmany.1) (Nat.not_le.mpr hmany.2)
    obtain ⟨k, rfl⟩ : ∃ k, m = k + 1 := Nat.exists_eq_succ_of_ne_zero (by omega)
    have hrange : List.range' 1 (k + 1 + 1) = List.range' 1 k ++ [k + 1, k + 2] := by
      rw [List.range'_concat, List.range'_concat, List.append_assoc]
      simp only [List.singleton_append, Nat.one_mul]
      rw [Nat.add_comm 1 k, Nat.add_comm 1 (k + 1)]
    rw [hrange, withChunk_of_saysNotFound hmany.1] at hlist
    have hread : bytesRead t b path = t.text b (contentCol path (k + 2)) := by
      rw [bytesRead, hlist, splitStringStorage_of_notMem (notMem_comma_chunkName hpath _)]
      exact List.append_nil _
    have hmem : t.text b (contentCol path (k + 2)) ∈ pieces part.length part := by
      rw [← hpieces, hrange]
      exact List.mem_map.mpr ⟨k + 2, by simp, rfl⟩
    have hlen := length_of_mem_pieces hmem
    rw [← hread, heq] at hlen
    exact absurd hlen (Nat.not_le.mpr hmany.2)
  · have hsplit :=
      @split_stored path (kvs.text b (path ++ ascii "-metadata")) hpath m fun hphrase => by
      have hshort : ¬chunkSize < part.length := fun hlong => hmany ⟨hphrase, hlong⟩
      omega
    rw [← hlist] at hsplit
    rw [bytesRead_of_split hsplit, hpieces, hflat]
    by_cases htext : SaysNotFound (kvs.text b (path ++ ascii "-metadata"))
    · rw [if_pos htext]
      exact iff_of_true rfl
        ⟨htext, fun hphrase => Nat.not_lt.mp fun hlong => hmany ⟨hphrase, hlong⟩⟩
    · -- the first entry that was there before is read, and a text is never empty
      rw [if_neg htext]
      refine iff_of_false (fun heq => ?_) fun h => htext h.1
      have hnil := List.append_left_eq_self.mp heq
      rw [List.flatten_eq_nil_iff] at hnil
      obtain ⟨e, es, hes⟩ := List.exists_cons_of_ne_nil
        (splitStringStorage_ne_nil (kvs.text b (path ++ ascii "-metadata")))
      refine ne_nil_of_read (isContent_append e) ((fullContents_iff.mp hfull).text _) (hnil _ ?_)
      rw [hes]
      exact List.mem_cons_self

end Stored

/-! ### There and back -/

section RoundTrip

variable {folder filename v : Bytes}

/-- A `CPut` leaves the texts of the other columns as they are. -/
theorem text_cput_of_ne {c c' cur new : Bytes} (hne : c' ≠ c) :
    (Call.exec master (.update (.cput b c cur new)) kvs).2.text b c' = kvs.text b c' := by
  rcases h : kvs.cput b c cur new with st | kvs'
  · have ht : Update.onTablet (.cput b c cur new) kvs = .error st := h
    simp only [Call.exec, ht]
  · have ht : Update.onTablet (.cput b c cur new) kvs = .ok kvs' := h
    simp only [Call.exec, ht]
    rw [Tablet.cput] at h
    split at h
    · exact absurd h (by simp)
    · next columns hcolumns =>
      split at h
      · exact absurd h (by simp)
      · split_ifs at h
        obtain rfl := Except.ok.inj h
        rw [Tablet.text, Tablet.text, Tablet.get, Tablet.get, hcolumns, Finmap.lookup_insert]
        dsimp only
        rw [Finmap.lookup_insert_of_ne _ hne]

/-- The upload is stored at `v`; at which path does not depend on the data. -/
theorem upload_eq_store {fuel : ℕ} {fname fileData : Bytes} {s : Tablet}
    (h : (webStorageUpload b fuel folder filename fileData).run (Call.exec master) kvs =
      (.ok (.ok (.uploaded fname folder v)), s)) (fileData' : Bytes) :
    (webStorageUpload b fuel folder filename fileData').run (Call.exec master) kvs =
      (storeUpload b folder fname v fileData').run (Call.exec master) kvs := by
  have hcases := h
  rw [webStorageUpload, onWorker, run_lookup_bind] at hcases ⊢
  split_ifs at hcases ⊢ with hworker hvalid
  · exact absurd (Except.ok.inj (Prod.mk.inj hcases).1) (by simp)
  · exact absurd (Except.ok.inj (Prod.mk.inj hcases).1) (by simp)
  · rw [run_Get_bind] at hcases ⊢
    split_ifs at hcases ⊢ with hfile
    · obtain ⟨i, t, hi, hstore⟩ := Prog.run_bind_ok _ hcases
      obtain ⟨rfl, -⟩ := run_freeUpload hi
      obtain ⟨u, hu⟩ := exists_run_storeUpload master t b folder (filename ++ parenthesized i)
        (variantPath (inFolder folder filename) i) fileData
      have hpage := Except.ok.inj (Prod.mk.inj (hstore.symm.trans hu)).1
      obtain ⟨rfl, -, rfl⟩ := Page.uploaded.inj (Answer.ok.inj hpage)
      rw [Prog.run_bind_of_ok _ hi]
    · obtain ⟨u, hu⟩ := exists_run_storeUpload master kvs b folder filename
        (inFolder folder filename) fileData
      have hpage := Except.ok.inj (Prod.mk.inj (hcases.symm.trans hu)).1
      obtain ⟨rfl, -, rfl⟩ := Page.uploaded.inj (Answer.ok.inj hpage)
      rfl

/-- An upload of some data to this place is answered and stored at `v`. -/
def StoresAt (master : Master) (kvs : Tablet) (b folder filename v : Bytes) : Prop :=
  ∃ fuel fname fileData s,
    (webStorageUpload b fuel folder filename fileData).run (Call.exec master) kvs =
      (.ok (.ok (.uploaded fname folder v)), s)

/-- There is a worker to store at. -/
theorem StoresAt.reached (h : StoresAt master kvs b folder filename v) : Reached master b := by
  obtain ⟨fuel, fname, fileData, s, hrun⟩ := h
  rw [webStorageUpload, onWorker, run_lookup_bind] at hrun
  by_cases hworker : isErr (clientText (master b)) = true
  · rw [if_pos hworker] at hrun
    exact absurd (Except.ok.inj (Prod.mk.inj hrun).1) (by simp)
  · exact Bool.eq_false_of_not_eq_true hworker

/-- **The data come back**: a download of the path right after the upload sends them. -/
def ComesBack (master : Master) (kvs : Tablet) (b folder filename v fileData : Bytes) : Prop :=
  ∀ fuel fname s, (webStorageUpload b fuel folder filename fileData).run (Call.exec master) kvs =
      (.ok (.ok (.uploaded fname folder v)), s) →
    ∀ folder' name, inFolder folder' name = v →
      ((webStorageDownload b folder' name).run (Call.exec master) s).1 =
        .ok (.download name fileData)

/-- There is no list of chunks at the path, or one that says that something was not found. -/
def NoListAt (R : Row) (path : Bytes) : Prop :=
  ∀ w, R (path ++ ascii "-metadata") = some w → SaysNotFound w

theorem saysNotFound_text_iff {path : Bytes} :
    SaysNotFound (kvs.text b (path ++ ascii "-metadata")) ↔ NoListAt (kvs.row b) path := by
  rw [NoListAt]
  rcases hrow : kvs.row b (path ++ ascii "-metadata") with _ | w
  · refine iff_of_true ?_ fun w h => nomatch h
    rcases Tablet.notFound_of_row hrow with h | h <;> rw [h] <;> decide
  · rw [Tablet.text_of_row hrow]
    exact ⟨fun h w' hw => Option.some.inj hw ▸ h, fun h => h w rfl⟩

/-- What a path that is stored at is like. -/
theorem StoresAt.path (h : StoresAt master kvs b folder filename v)
    (hfolder : IsFolderPath folder) (hname : isValidName filename = true) :
    45 ∉ v ∧ 44 ∉ v ∧ v ≠ folder := by
  obtain ⟨fuel, fname, fileData, s, hrun⟩ := h
  have hpath := IsPath.inFolder hfolder hname
  have hlen : folder.length < (inFolder folder filename).length := by
    have hpos := List.length_pos_iff.mpr (isValidName_ne_nil hname)
    rw [inFolder]
    split_ifs with hroot
    · rw [hroot]
      exact hpos
    · simp
  rcases run_upload hrun with ⟨-, href⟩ | ⟨fname', v', has, hstore⟩
  · exact absurd rfl (href _)
  · obtain ⟨u, hu⟩ := exists_run_storeUpload master kvs b folder fname' v' fileData
    have hpage := Except.ok.inj (Prod.mk.inj (hstore.symm.trans hu)).1
    obtain ⟨rfl, -, rfl⟩ := Page.uploaded.inj (Answer.ok.inj hpage)
    rcases has with ⟨-, -, rfl⟩ | ⟨-, -, i, -, rfl, -, -⟩
    · exact ⟨hpath.notMem_dash, hpath.notMem_comma, fun heq => by rw [heq] at hlen; omega⟩
    · refine ⟨notMem_variantPath (by decide) hpath.notMem_dash i,
        notMem_variantPath (by decide) hpath.notMem_comma i, fun heq => ?_⟩
      have hle : (inFolder folder filename).length ≤
          (variantPath (inFolder folder filename) i).length := by
        have htake := congrArg List.length (List.takeWhile_append_dropWhile
          (p := fun x => decide (x ≠ (46 : UInt8))) (l := inFolder folder filename))
        rw [List.length_append] at htake
        rw [variantPath, List.length_append, List.length_append]
        omega
      rw [heq] at hle
      omega

/-- What a download reads after the file is stored. -/
theorem bytesRead_storeUpload_iff {fname fileData : Bytes} {s : Tablet} {a : Answer}
    (hcomma : 44 ∉ v) (hne : v ≠ folder) (hfull : FullContents (kvs.row b))
    (hpart : storedPart fileData ≠ [])
    (h : (storeUpload b folder fname v fileData).run (Call.exec master) kvs = (.ok a, s)) :
    bytesRead s b v = storedPart fileData ↔
      NoListAt (kvs.row b) v ∧ (SaysNotFound v → (storedPart fileData).length ≤ chunkSize) := by
  have hfull' : FullContents (s.row b) := fullContents_iff.mpr
    ((FullContent.storeUpload folder fname v fileData).of_run (fullContents_iff.mp hfull) h)
  obtain ⟨t, ht, hlist, hpieces, -⟩ := @run_storeChunks_pieces master (kvs.put b v kvFile) b v
    (storedPart fileData).length 1 (storedPart fileData)
  rw [storeUpload, run_Put_bind, Prog.run_bind_of_ok _ ht, run_Get_bind, run_CPut_bind] at h
  obtain ⟨-, rfl⟩ := Prod.mk.inj h
  have hmarker : v ++ ascii "-metadata" ≠ v := fun heq =>
    absurd (List.append_right_eq_self.mp heq) (by decide)
  have hbefore : SaysNotFound ((kvs.put b v kvFile).text b (v ++ ascii "-metadata")) ↔
      NoListAt (kvs.row b) v := by
    rw [saysNotFound_text_iff, NoListAt, Tablet.row_put, Function.update_of_ne hmarker]
    rfl
  rw [← hbefore]
  -- the listing of the folder is none of the columns that are read
  refine bytesRead_stored_iff hcomma hpart hfull' ?_ ?_
  · exact (text_cput_of_ne (metaCol_ne_metadata hne.symm).symm).trans hlist
  · refine (List.map_congr_left fun j _ => ?_).trans hpieces
    exact text_cput_of_ne fun heq => not_isContent_metaCol folder
      (heq ▸ isContent_append (chunkName v j))

/-- When a download sends the data. -/
theorem download_eq_iff (hreached : Reached master b) {folder' name fileData : Bytes} {s : Tablet}
    (hv : inFolder folder' name = v) :
    ((webStorageDownload b folder' name).run (Call.exec master) s).1 =
        .ok (.download name fileData) ↔ bytesRead s b v = fileData ∧ fileData ≠ [] := by
  rw [run_webStorageDownload hreached, hv]
  by_cases hnil : bytesRead s b v = []
  · rw [if_pos hnil]
    refine iff_of_false (fun h => ?_) fun h => h.2 (h.1.symm.trans hnil)
    exact absurd (Except.ok.inj h) (by simp)
  · rw [if_neg hnil]
    constructor
    · intro h
      obtain ⟨-, rfl⟩ := StorageReply.download.inj (Except.ok.inj h)
      exact ⟨rfl, hnil⟩
    · rintro ⟨rfl, -⟩
      rfl

theorem storedPart_of_lt {fileData : Bytes} (h : fileData.length < 2 ^ 31) :
    storedPart fileData = fileData := by
  have hmod : fileData.length % 2 ^ 32 = fileData.length := Nat.mod_eq_of_lt (by omega)
  rw [storedPart, hmod, if_pos h, List.take_length]

/-- Of data that are too long, the end is not looked at. -/
theorem storedPart_concat {front : Bytes} (h : 2 ^ 31 ≤ front.length + 1) (x : UInt8) :
    storedPart (front ++ [x]) = storedPart (front ++ [0]) := by
  have hlen : ∀ y : UInt8, (front ++ [y]).length = front.length + 1 := fun y => by simp
  rw [storedPart, storedPart, hlen, hlen]
  split_ifs with hmod
  · have hle : (front.length + 1) % 2 ^ 32 ≤ front.length := by omega
    rw [List.take_append_of_le_length hle, List.take_append_of_le_length hle]
  · rfl

/-- **When an upload comes back**: below `2 ^ 31` bytes, when there are data at all, when
there was no list at the path, and when the path itself does not say that something was not
found, or the data fit into one chunk. From `2 ^ 31` bytes on there are data of every size
that do not come back. -/
theorem upload_comesBack_iff {kvs₀ : Tablet} {ok : Tablet → StorageEvent → Prop}
    (h0 : ∀ c, kvs₀.row b c = none)
    (hreaches : Runs.Reaches (StorageRequest.step master b) ok kvs₀ kvs)
    (hfolder : IsFolderPath folder) (hname : isValidName filename = true)
    (hv : StoresAt master kvs b folder filename v) :
    (∀ fileData : Bytes, fileData.length < 2 ^ 31 →
      (ComesBack master kvs b folder filename v fileData ↔ fileData ≠ [] ∧
        NoListAt (kvs.row b) v ∧ (SaysNotFound v → fileData.length ≤ chunkSize))) ∧
    ∀ n, 2 ^ 31 ≤ n → ∃ fileData : Bytes, fileData.length = n ∧
      ¬ComesBack master kvs b folder filename v fileData := by
  obtain ⟨-, hcomma, hne⟩ := hv.path hfolder hname
  have hreached := hv.reached
  obtain ⟨fuel, fname, fileData₀, s₀, hrun₀⟩ := hv
  have hfull := fullContents_of_reaches h0 hreaches
  constructor
  · intro fileData hlen
    have hpart := storedPart_of_lt hlen
    have hread : ∀ fname s, fileData ≠ [] →
        (storeUpload b folder fname v fileData).run (Call.exec master) kvs =
          (.ok (.ok (.uploaded fname folder v)), s) →
        (bytesRead s b v = fileData ↔
          NoListAt (kvs.row b) v ∧ (SaysNotFound v → fileData.length ≤ chunkSize)) := by
      intro fname s hdata hrun
      have hiff := bytesRead_storeUpload_iff hcomma hne hfull (by rwa [hpart]) hrun
      rwa [hpart] at hiff
    constructor
    · intro hback
      obtain ⟨s, hs⟩ := exists_run_storeUpload master kvs b folder fname v fileData
      obtain ⟨heq, hdata⟩ := (download_eq_iff hreached (inFolder_nil v)).mp
        (hback fuel fname s ((upload_eq_store hrun₀ fileData).trans hs) [] v (inFolder_nil v))
      exact ⟨hdata, (hread fname s hdata hs).mp heq⟩
    · rintro ⟨hdata, hcond⟩ fuel' fname' s hrun folder' name hpath
      have hs := (upload_eq_store hrun fileData).symm.trans hrun
      exact (download_eq_iff hreached hpath).mpr ⟨(hread fname' s hdata hs).mpr hcond, hdata⟩
  · intro n hn
    by_contra hall
    have hback : ∀ fileData : Bytes, fileData.length = n →
        ComesBack master kvs b folder filename v fileData := fun fileData hlen =>
      not_not.mp fun hno => hall ⟨fileData, hlen, hno⟩
    -- two uploads that differ in the last byte only are stored alike
    have hfront : (List.replicate (n - 1) (0 : UInt8)).length = n - 1 := List.length_replicate
    have hsame : storeUpload b folder fname v (List.replicate (n - 1) 0 ++ [1]) =
        storeUpload b folder fname v (List.replicate (n - 1) 0 ++ [0]) := by
      rw [storeUpload, storeUpload, storedPart_concat (by omega)]
    obtain ⟨s, hs⟩ := exists_run_storeUpload master kvs b folder fname v
      (List.replicate (n - 1) 0 ++ [0])
    have hread : ∀ x : UInt8, storeUpload b folder fname v (List.replicate (n - 1) 0 ++ [x]) =
        storeUpload b folder fname v (List.replicate (n - 1) 0 ++ [0]) →
        bytesRead s b v = List.replicate (n - 1) 0 ++ [x] := by
      intro x hx
      have hlen : (List.replicate (n - 1) 0 ++ [x]).length = n := by
        rw [List.length_append, hfront, List.length_singleton]
        omega
      have hrun := (upload_eq_store hrun₀ (List.replicate (n - 1) 0 ++ [x])).trans
        ((congrArg (fun p => p.run (Call.exec master) kvs) hx).trans hs)
      exact ((download_eq_iff hreached (inFolder_nil v)).mp
        (hback _ hlen fuel fname s hrun [] v (inFolder_nil v))).1
    have heq := (hread 0 rfl).symm.trans (hread 1 hsame)
    exact absurd (List.append_cancel_left heq) (by decide)

/-- Ann has a folder `a`, and the master is up. -/
theorem storesAt_folderA : StoresAt Master.first folderA annsRow [] (ascii "b") (ascii "b") := by
  refine ⟨0, ascii "b", [], ((webStorageUpload annsRow 0 [] (ascii "b") []).run
    (Call.exec Master.first) folderA).2, ?_⟩
  have hok : ((webStorageUpload annsRow 0 [] (ascii "b") []).run (Call.exec Master.first)
      folderA).1 = .ok (.ok (.uploaded (ascii "b") [] (ascii "b"))) := by decide +kernel
  exact Prod.ext hok rfl

/-- A new file comes back. -/
theorem newFile_comesBack :
    (∀ fileData : Bytes, fileData.length < 2 ^ 31 →
      (ComesBack Master.first folderA annsRow [] (ascii "b") (ascii "b") fileData ↔ fileData ≠ [] ∧
        NoListAt (folderA.row annsRow) (ascii "b") ∧
          (SaysNotFound (ascii "b") → fileData.length ≤ chunkSize))) ∧
    ∀ n, 2 ^ 31 ≤ n → ∃ fileData : Bytes, fileData.length = n ∧
      ¬ComesBack Master.first folderA annsRow [] (ascii "b") (ascii "b") fileData := by
  exact @upload_comesBack_iff Master.first folderA annsRow [] (ascii "b") (ascii "b") ∅
    (fun _ e => e.2.Valid) (fun _ => rfl) reaches_folderA (Or.inl rfl) (by decide) storesAt_folderA

/-- **An empty file comes back as the text of an error**, and a file that is stored where a
folder was with such a text in front. -/
theorem upload_comes_back_changed :
    ((webStorageDownload annsRow [] (ascii "e")).run (Call.exec Master.first)
      (StorageRequest.step Master.first annsRow folderA (0, .upload [] (ascii "e") []))).1 =
        .ok (.download (ascii "e") (ascii "ERR 5: Column key not found\n")) ∧
    ((webStorageUpload annsRow 0 [] (ascii "e") []).run (Call.exec Master.first) folderA).1 =
      .ok (.ok (.uploaded (ascii "e") [] (ascii "e"))) ∧
    ((webStorageUpload annsRow 0 [] (ascii "a") (ascii "x")).run (Call.exec Master.first)
      folderA).1 = .ok (.ok (.uploaded (ascii "a") [] (ascii "a"))) ∧
    ((webStorageDownload annsRow [] (ascii "a")).run (Call.exec Master.first)
      (StorageRequest.step Master.first annsRow folderA
        (0, .upload [] (ascii "a") (ascii "x")))).1 =
        .ok (.download (ascii "a") (ascii "ERR 5: Column key not found\nx")) := by
  decide +kernel

end RoundTrip

end PennCloud
