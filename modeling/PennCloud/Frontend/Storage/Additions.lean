import PennCloud.Frontend.Storage.Visible

/-!
# Additions at the same time

An upload and a new folder both end up on the listing of their folder, and both put
it there the same way: the listing is read, one entry is added to the text, and the
text is written back – by an upload with a `CPut` whose outcome nobody looks at, for
a folder with a blind `Put`. Two requests that read the same text before either
writes are both answered with a 200, and one of the items is on no listing
(`PennCloud.addition_lost`).

The race is decided at the write: a request is **undisturbed** when nobody has
changed the listing since it read it. In every interleaving in which all of them are,
the listing has the items of all requests that were answered, and everything that was
on it before (`PennCloud.additions_kept`).
-/

namespace PennCloud

open Wire Calls Text

/-! ### Entries -/

/-- A listing has an entry for the item at a path. -/
def HasEntry (listing path : Bytes) : Prop :=
  ∃ e ∈ splitStringStorage listing, e ≠ [] ∧ afterLast 47 e = afterLast 47 path

/-- A listing has the entries of another. -/
def KeepsEntries (listing listing' : Bytes) : Prop :=
  ∀ e ∈ splitStringStorage listing, e ≠ [] → e ∈ splitStringStorage listing'

section Entries

variable {v v' v'' path : Bytes}

theorem KeepsEntries.refl (v : Bytes) : KeepsEntries v v := fun _ he _ => he

theorem KeepsEntries.trans (h : KeepsEntries v v') (h' : KeepsEntries v' v'') :
    KeepsEntries v v'' :=
  fun e he hne => h' e (h e he hne) hne

theorem HasEntry.mono (h : HasEntry v path) (hkeeps : KeepsEntries v v') : HasEntry v' path := by
  obtain ⟨e, he, hne, hlast⟩ := h
  exact ⟨e, hkeeps e he hne, hne, hlast⟩

/-- What the handlers make of the text they have read. -/
theorem keepsEntries_withUpload (name : Bytes) : KeepsEntries v (withUpload v name path) :=
  fun _ he hne => mem_withUpload_of_mem name he hne

/-- The listing is as it was, or the path is on it. -/
theorem eq_or_hasEntry_withUpload (name : Bytes) (hcomma : 44 ∉ path) (hne : path ≠ []) :
    withUpload v name path = v ∨ HasEntry (withUpload v name path) path := by
  by_cases hv : v ≠ [] ∧ name ∈ splitStringStorage v
  · refine Or.inl ?_
    rw [withUpload, if_neg hv.1, if_pos hv.2]
  · refine Or.inr ?_
    rcases eq_or_ne v [] with rfl | hnil
    · rw [withUpload, if_pos rfl]
      exact ⟨path, by rw [splitStringStorage_of_notMem hcomma]; exact List.mem_cons_self, hne, rfl⟩
    · exact exists_mem_withUpload hcomma hne fun hmem => absurd ⟨hnil, hmem⟩ hv

end Entries

/-! ### Paths -/

/-- **The path of an addition** to a folder: not a listing, and longer than the path
of the folder. -/
structure Addable (folder path : Bytes) : Prop where
  notMem_dash : 45 ∉ path
  notMem_comma : 44 ∉ path
  ne_metadata : path ≠ ascii "metadata"
  longer : folder.length < path.length

namespace Addable

variable {folder path : Bytes}

theorem inFolder {name : Bytes} (hfolder : IsFolderPath folder) (hname : isValidName name = true)
    (hmeta : PennCloud.inFolder folder name ≠ ascii "metadata") :
    Addable folder (PennCloud.inFolder folder name) := by
  have hpath := IsPath.inFolder hfolder hname
  refine ⟨hpath.notMem_dash, hpath.notMem_comma, hmeta, ?_⟩
  have hpos := List.length_pos_of_ne_nil (isValidName_ne_nil hname)
  rw [PennCloud.inFolder]
  split_ifs with h
  · rw [h]
    exact hpos
  · simp

variable (h : Addable folder path)
include h

/-- A path with a number in it. -/
theorem variantPath (i : ℕ) : Addable folder (PennCloud.variantPath path i) := by
  have hlength : path.length ≤ (PennCloud.variantPath path i).length := by
    have hcut := congrArg List.length (List.takeWhile_append_dropWhile (p := (· ≠ 46)) (l := path))
    rw [List.length_append] at hcut
    rw [PennCloud.variantPath, List.length_append, List.length_append]
    omega
  refine ⟨notMem_variantPath (by decide) h.notMem_dash i,
    notMem_variantPath (by decide) h.notMem_comma i, ?_, h.longer.trans_le hlength⟩
  intro heq
  have hmem : (40 : UInt8) ∈ ascii "metadata" := by
    rw [← heq, PennCloud.variantPath, parenthesized]
    simp [ascii]
  exact absurd hmem (by decide)

theorem ne_nil : path ≠ [] := List.ne_nil_of_length_pos (by have := h.longer; omega)

theorem ne_metaCol : path ≠ metaCol folder :=
  (metaCol_ne h.notMem_dash fun _ => h.ne_metadata).symm

theorem metadata_ne_metaCol : path ++ ascii "-metadata" ≠ metaCol folder := by
  refine (metaCol_ne_metadata ?_).symm
  rintro rfl
  exact absurd h.longer (lt_irrefl _)

end Addable

/-! ### What is left of a request -/

section Shape

variable (b folder : Bytes)

/-- A request that is done with the listing, and whose answer is about the item at
`path`. -/
def Settled (path : Bytes) : Handler Answer → Prop
  | .done a => ∀ page, a = .ok page → ∃ k, page.placed = some (folder, path, k)
  | .fail _ => True
  | .call (.update u) k => u.cell ≠ (b, metaCol folder) ∧ ∀ r, Settled path (k r)
  | .call (.lookup _) k => ∀ r, Settled path (k r)
  | .call (.get _ _) k => ∀ r, Settled path (k r)

/-- A request that has read `text` and is about to put the listing back. -/
def PutsBack (path text : Bytes) (p : Handler Answer) : Prop :=
  ∃ listing k, p = .call (.update (.put b (metaCol folder) listing)) k ∧
    KeepsEntries text listing ∧ HasEntry listing path ∧ ∀ r, Settled b folder path (k r)

/-- The same with a `CPut`, which may leave the listing as it is. -/
def SwapsBack (path text : Bytes) (p : Handler Answer) : Prop :=
  ∃ listing k, p = .call (.update (.cput b (metaCol folder) text listing)) k ∧
    KeepsEntries text listing ∧ (listing = text ∨ HasEntry listing path) ∧
      ∀ r, Settled b folder path (k r)

/-- An upload that stores its file at `path`. -/
def Storing (path : Bytes) : Handler Answer → Prop
  | .done _ => False
  | .fail _ => True
  | .call (.update u) k => u.cell ≠ (b, metaCol folder) ∧ ∀ r, Storing path (k r)
  | .call (.lookup _) k => ∀ r, Storing path (k r)
  | .call (.get row column) k =>
    if (row, column) = (b, metaCol folder) then ∀ text, SwapsBack b folder path text (k text)
    else ∀ r, Storing path (k r)

/-- A request that has written nothing. -/
def Choosing : Handler Answer → Prop
  | .done a => ∀ page, a ≠ .ok page
  | .fail _ => True
  | .call (.update u) k =>
    ∃ path, Addable folder path ∧ u = .put b path kvFile ∧ ∀ r, Storing b folder path (k r)
  | .call (.lookup _) k => ∀ r, Choosing (k r)
  | .call (.get row column) k =>
    if (row, column) = (b, metaCol folder) then
      ∀ text, ∃ path, PutsBack b folder path text (k text) ∨
        (Settled b folder path (k text) ∧ HasEntry text path)
    else ∀ r, Choosing (k r)

variable {b folder} {path : Bytes}

theorem choosing_lookup {key : Bytes} {f : Bytes → Handler Answer} :
    Choosing b folder (lookup key >>= f) ↔ ∀ r, Choosing b folder (f r) := Iff.rfl

/-- A `Get` of a column that is not the listing. -/
theorem choosing_Get {column : Bytes} {f : Bytes → Handler Answer}
    (hne : column ≠ metaCol folder) :
    Choosing b folder (Get b column >>= f) ↔ ∀ r, Choosing b folder (f r) := by
  have hcell : (b, column) ≠ (b, metaCol folder) := fun h => hne (Prod.mk.inj h).2
  show (if _ then _ else _) ↔ _
  rw [if_neg hcell]
  rfl

theorem storing_Get {column : Bytes} {f : Bytes → Handler Answer}
    (hne : column ≠ metaCol folder) :
    Storing b folder path (Get b column >>= f) ↔ ∀ r, Storing b folder path (f r) := by
  have hcell : (b, column) ≠ (b, metaCol folder) := fun h => hne (Prod.mk.inj h).2
  show (if _ then _ else _) ↔ _
  rw [if_neg hcell]
  rfl

/-- A `Get` of the listing. -/
theorem choosing_Get_listing {f : Bytes → Handler Answer}
    (hf : ∀ text, ∃ path, PutsBack b folder path text (f text) ∨
      (Settled b folder path (f text) ∧ HasEntry text path)) :
    Choosing b folder (Get b (metaCol folder) >>= f) := by
  show if _ then _ else _
  rw [if_pos rfl]
  exact hf

theorem storing_Get_listing {f : Bytes → Handler Answer}
    (hf : ∀ text, SwapsBack b folder path text (f text)) :
    Storing b folder path (Get b (metaCol folder) >>= f) := by
  show if _ then _ else _
  rw [if_pos rfl]
  exact hf

theorem storing_Put {column value : Bytes} {f : Bytes → Handler Answer}
    (hne : column ≠ metaCol folder) (hf : ∀ r, Storing b folder path (f r)) :
    Storing b folder path (Put b column value >>= f) :=
  ⟨fun h => hne (Prod.mk.inj h).2, hf⟩

theorem settled_Put {column value : Bytes} {f : Bytes → Handler Answer}
    (hne : column ≠ metaCol folder) (hf : ∀ r, Settled b folder path (f r)) :
    Settled b folder path (Put b column value >>= f) :=
  ⟨fun h => hne (Prod.mk.inj h).2, hf⟩

theorem storing_storeChunks (hpath : Addable folder path) (rounds i : ℕ) (rest : Bytes)
    {f : Unit → Handler Answer} (hf : Storing b folder path (f ())) :
    Storing b folder path (storeChunks b path rounds i rest >>= f) := by
  induction rounds generalizing i rest with
  | zero => exact hf
  | succ rounds ih =>
    rw [storeChunks, Prog.ite_bind]
    split_ifs with hrest
    · exact hf
    · simp only [Prog.bind_bind]
      refine (storing_Get hpath.metadata_ne_metaCol).mpr fun fileMetadata => ?_
      refine storing_Put hpath.metadata_ne_metaCol fun _ => storing_Put ?_ fun _ => ih _ _
      intro heq
      refine not_isContent_metaCol folder ?_
      rw [← heq]
      exact isContent_append _

/-- The second half of an upload. -/
theorem choosing_storeUpload (hpath : Addable folder path) (filename fileData : Bytes) :
    Choosing b folder (storeUpload b folder filename path fileData) := by
  refine ⟨path, hpath, rfl, fun _ => storing_storeChunks hpath _ _ _ ?_⟩
  refine storing_Get_listing fun text => ?_
  refine ⟨withUpload text filename path, _, rfl, keepsEntries_withUpload filename, ?_, fun _ => ?_⟩
  · exact eq_or_hasEntry_withUpload filename hpath.notMem_comma hpath.ne_nil
  · intro page hpage
    obtain rfl := Answer.ok.inj hpage
    exact ⟨.file, rfl⟩

/-- Looking for a path that is free writes nothing. -/
theorem choosing_freeUpload (hpath : Addable folder path) (fuel i : ℕ) {f : ℕ → Handler Answer}
    (hf : ∀ j, Choosing b folder (f j)) :
    Choosing b folder (freeUpload b path fuel i >>= f) := by
  induction fuel generalizing i with
  | zero => exact trivial
  | succ fuel ih =>
    rw [freeUpload, Prog.ite_bind]
    split_ifs with hdot
    · simp only [Prog.bind_bind, Prog.ite_bind, Prog.pure_bind]
      refine (choosing_Get (hpath.variantPath i).ne_metaCol).mpr fun resp => ?_
      split_ifs with hresp
      · exact ih (i + 1)
      · exact hf i
    · exact trivial

theorem choosing_onWorker {p : Handler Answer} (h : Choosing b folder p) :
    Choosing b folder (onWorker b p) := by
  refine choosing_lookup.mpr fun worker => ?_
  split_ifs with hworker
  · exact fun page => by simp
  · exact h

variable (hfolder : IsFolderPath folder)
include hfolder

theorem choosing_upload {filename : Bytes} (fuel : ℕ) (fileData : Bytes)
    (hmeta : inFolder folder filename ≠ ascii "metadata") :
    Choosing b folder (webStorageUpload b fuel folder filename fileData) := by
  refine choosing_onWorker ?_
  split_ifs with hname
  · exact fun page => by simp
  · have hpath := Addable.inFolder hfolder (by simpa using hname) hmeta
    refine (choosing_Get hpath.ne_metaCol).mpr fun resp => ?_
    split_ifs with hresp
    · exact choosing_freeUpload hpath fuel 1 fun i =>
        choosing_storeUpload (hpath.variantPath i) _ fileData
    · exact choosing_storeUpload hpath filename fileData

theorem choosing_createFolder {name : Bytes} (hmeta : inFolder folder name ≠ ascii "metadata") :
    Choosing b folder (webStorageCreateFolder b folder name) := by
  refine choosing_onWorker ?_
  split_ifs with hname
  · exact fun page => by simp
  · have hvalid : isValidName name = true := by simpa using hname
    have hpath := Addable.inFolder hfolder hvalid hmeta
    have hsettled : Settled b folder (inFolder folder name)
        (makeFolder b folder name (inFolder folder name)) := by
      refine settled_Put hpath.ne_metaCol fun _ => settled_Put hpath.metadata_ne_metaCol fun _ => ?_
      intro page hpage
      obtain rfl := Answer.ok.inj hpage
      exact ⟨.folder, rfl⟩
    refine (choosing_Get hpath.ne_metaCol).mpr fun newFolderCol => ?_
    split_ifs with htaken
    · exact fun page => by simp
    · refine choosing_Get_listing fun text => ⟨inFolder folder name, ?_⟩
      by_cases hmem : name ∈ splitStringStorage text
      · rw [if_pos hmem]
        refine Or.inr ⟨hsettled, name, hmem, isValidName_ne_nil hvalid, ?_⟩
        rw [afterLast_inFolder hvalid, afterLast_of_notMem (notMem_of_isValidName hvalid)]
      · have hlisting : (if text = [] then inFolder folder name
            else text ++ 44 :: inFolder folder name) =
              withUpload text name (inFolder folder name) := by
          rw [withUpload, if_neg hmem]
        rw [if_neg hmem, hlisting]
        refine Or.inl ⟨_, _, rfl, keepsEntries_withUpload name, ?_, fun _ => hsettled⟩
        exact exists_mem_withUpload hpath.notMem_comma hpath.ne_nil fun h => absurd h hmem

end Shape

/-! ### Interleavings -/

/-- The call changes a cell, if it is accepted. -/
def Call.Rewrites (cell : Bytes × Bytes) : Call → Prop
  | .lookup _ => False
  | .get _ _ => False
  | .update (.put row column _) => (row, column) = cell
  | .update (.cput row column cur new) => (row, column) = cell ∧ cur ≠ new
  | .update (.delete row column) => (row, column) = cell

/-- A request that adds the item `name` to a folder. -/
def StorageRequest.AddsTo (folder name : Bytes) : StorageRequest → Prop
  | .upload folder' filename _ => folder' = folder ∧ filename = name
  | .createFolder parent newFolder => parent = folder ∧ newFolder = name
  | _ => False

section Races

variable {ι : Type} [DecidableEq ι]

/-- Requests, each with what is left of it. -/
abbrev AdditionRace (ι : Type) := Config ι Call Bytes Abort Tablet Answer

namespace AdditionRace

variable (b folder : Bytes)

/-- All requests are about to begin. -/
def start (kvs : Tablet) (fuel : ι → ℕ) (requests : ι → StorageRequest) : AdditionRace ι :=
  Config.start kvs fun i => (requests i).handler b (fuel i)

/-- Request `i` has read the listing, and nobody has changed it since. -/
def UpToDate (s : AdditionRace ι) (i : ι) : Prop :=
  Since (fun c => c = .get b (metaCol folder)) (Call.Rewrites (b, metaCol folder)) i s.trace

/-- Request `i` has stored a file at a path. -/
def Stored (s : AdditionRace ι) (i : ι) (path : Bytes) : Prop :=
  Addable folder path ∧ (i, Call.update (.put b path kvFile)) ∈ s.trace

/-- **The next call of request `i` is undisturbed**: if it writes the listing, the
request knows what is on it, and if it writes the listing as it was, the file that was
stored is on it. -/
def Undisturbed (s : AdditionRace ι) (i : ι) : Prop :=
  ∀ u k, s.progs i = .call (.update u) k → u.cell = (b, metaCol folder) →
    s.UpToDate b folder i ∧ ∀ text path, u = .cput b (metaCol folder) text text →
      s.Stored b folder i path → HasEntry text path

/-- **All additions are kept**: the listing has the item of every request that was
answered with a 200, and what was on it before. -/
def Kept (before : Bytes) (s : AdditionRace ι) : Prop :=
  ∃ listing, s.store.row b (metaCol folder) = some listing ∧ KeepsEntries before listing ∧
    ∀ i page, s.progs i = .done (.ok page) →
      ∃ path k, page.placed = some (folder, path, k) ∧ HasEntry listing path

/-- How far request `i` is, when `v` is on the listing. -/
inductive Stage (s : AdditionRace ι) (v : Bytes) (i : ι) : Prop
  | choosing (h : Choosing b folder (s.progs i))
  | storing {path : Bytes} (hstored : s.Stored b folder i path)
      (h : Storing b folder path (s.progs i))
  | puts {path text : Bytes} (hread : s.UpToDate b folder i → v = text)
      (h : PutsBack b folder path text (s.progs i))
  | swaps {path text : Bytes} (hread : s.UpToDate b folder i → v = text)
      (hstored : s.Stored b folder i path) (h : SwapsBack b folder path text (s.progs i))
  | settled {path : Bytes} (hentry : HasEntry v path) (h : Settled b folder path (s.progs i))

/-- The invariant of undisturbed interleavings. -/
def Inv (before : Bytes) (s : AdditionRace ι) : Prop :=
  ∃ v, s.store.row b (metaCol folder) = some v ∧ KeepsEntries before v ∧
    ∀ i, Stage b folder s v i

variable {b folder} {s : AdditionRace ι} {i : ι}

/-- The configuration after a call of request `i`. -/
def after (s : AdditionRace ι) (i : ι) (c : Call) (kvs : Tablet) (p : Handler Answer) :
    AdditionRace ι :=
  ⟨kvs, Function.update s.progs i p, (i, c) :: s.trace⟩

section After

variable {c : Call} {kvs' : Tablet} {p : Handler Answer} {v v' : Bytes}

@[simp] theorem progs_after : (s.after i c kvs' p).progs i = p := Function.update_self ..

omit [DecidableEq ι] in
theorem Stored.cons {path : Bytes} {j : ι} {progs : ι → Handler Answer}
    (h : s.Stored b folder j path) :
    Stored b folder (⟨kvs', progs, (i, c) :: s.trace⟩ : AdditionRace ι) j path :=
  ⟨h.1, List.mem_cons_of_mem _ h.2⟩

/-- The others after a call of request `i`: they know the listing only if it was not
changed. -/
theorem Stage.other {j : ι} (hj : j ≠ i) (h : Stage b folder s v j) (hkeeps : KeepsEntries v v')
    (hc : c.Rewrites (b, metaCol folder) ∨ v' = v) :
    Stage b folder (s.after i c kvs' p) v' j := by
  have hprog : (s.after i c kvs' p).progs j = s.progs j := Function.update_of_ne hj _ _
  have hread : ∀ text, (s.UpToDate b folder j → v = text) →
      (s.after i c kvs' p).UpToDate b folder j → v' = text := by
    intro text hread hup
    obtain ⟨hnot, hold⟩ := (since_cons_of_ne hj).mp hup
    exact (hc.resolve_left hnot).trans (hread hold)
  cases h with
  | choosing h => exact .choosing (hprog ▸ h)
  | storing hstored h => exact .storing hstored.cons (hprog ▸ h)
  | puts hold h => exact .puts (hread _ hold) (hprog ▸ h)
  | swaps hold hstored h => exact .swaps (hread _ hold) hstored.cons (hprog ▸ h)
  | settled hentry h => exact .settled (hentry.mono hkeeps) (hprog ▸ h)

end After

section Step

variable {before v : Bytes} (hrow : s.store.row b (metaCol folder) = some v)
  (hbefore : KeepsEntries before v) (hall : ∀ j, Stage b folder s v j)
include hbefore hall

/-- A call of request `i` that leaves `v'` on the listing. -/
theorem Inv.after {c : Call} {kvs' : Tablet} {p : Handler Answer} {v' : Bytes}
    (hrow' : kvs'.row b (metaCol folder) = some v') (hkeeps : KeepsEntries v v')
    (hc : c.Rewrites (b, metaCol folder) ∨ v' = v)
    (hi : Stage b folder (s.after i c kvs' p) v' i) :
    Inv b folder before (s.after i c kvs' p) := by
  refine ⟨v', hrow', hbefore.trans hkeeps, fun j => ?_⟩
  rcases eq_or_ne j i with rfl | hj
  · exact hi
  · exact (hall j).other hj hkeeps hc

/-- A call that is not a write of the listing. -/
theorem Inv.keep {c : Call} {kvs' : Tablet} {p : Handler Answer}
    (hrow' : kvs'.row b (metaCol folder) = some v)
    (hi : Stage b folder (s.after i c kvs' p) v i) : Inv b folder before (s.after i c kvs' p) :=
  Inv.after hbefore hall hrow' (KeepsEntries.refl v) (Or.inr rfl) hi

include hrow

variable {master : Master}

/-- A request that has written nothing. -/
theorem Inv.step_choosing {c : Call} {k : Bytes → Handler Answer}
    (h : Choosing b folder (.call c k)) :
    Inv b folder before (s.after i c (Call.exec master c s.store).2
      (k (Call.exec master c s.store).1)) := by
  rcases c with key | ⟨row, column⟩ | u
  · exact Inv.keep hbefore hall hrow (.choosing (by rw [progs_after]; exact h _))
  · refine Inv.keep hbefore hall hrow ?_
    rw [Choosing] at h
    split_ifs at h with hcell
    · -- the listing is read
      obtain ⟨rfl, rfl⟩ := Prod.mk.inj hcell
      obtain ⟨path, hputs | ⟨hsettled, hentry⟩⟩ := h (s.store.text row (metaCol folder))
      · have hputs' : PutsBack row folder path (s.store.text row (metaCol folder))
            ((s.after i (.get row (metaCol folder)) s.store
              (k (s.store.text row (metaCol folder)))).progs i) := by
          rw [progs_after]
          exact hputs
        exact .puts (fun _ => (Tablet.text_of_row hrow).symm) hputs'
      · refine .settled (Tablet.text_of_row hrow ▸ hentry) ?_
        rw [progs_after]
        exact hsettled
    · exact .choosing (by rw [progs_after]; exact h _)
  · obtain ⟨path, hpath, rfl, hk⟩ := h
    refine Inv.keep hbefore hall ?_ (.storing ⟨hpath, List.mem_cons_self⟩ ?_)
    · refine (Call.cells_exec_of_ne master s.store fun heq => hpath.ne_metaCol ?_).trans hrow
      exact (Prod.mk.inj heq).2.symm
    · rw [progs_after]
      exact hk _

/-- An upload that stores its file. -/
theorem Inv.step_storing {path : Bytes} {c : Call} {k : Bytes → Handler Answer}
    (hstored : s.Stored b folder i path) (h : Storing b folder path (.call c k)) :
    Inv b folder before (s.after i c (Call.exec master c s.store).2
      (k (Call.exec master c s.store).1)) := by
  rcases c with key | ⟨row, column⟩ | u
  · exact Inv.keep hbefore hall hrow (.storing hstored.cons (by rw [progs_after]; exact h _))
  · refine Inv.keep hbefore hall hrow ?_
    rw [Storing] at h
    split_ifs at h with hcell
    · obtain ⟨rfl, rfl⟩ := Prod.mk.inj hcell
      refine .swaps (fun _ => (Tablet.text_of_row hrow).symm) hstored.cons ?_
      rw [progs_after]
      exact h _
    · exact .storing hstored.cons (by rw [progs_after]; exact h _)
  · refine Inv.keep hbefore hall ?_ (.storing hstored.cons (by rw [progs_after]; exact h.2 _))
    exact (Call.cells_exec_of_ne master s.store h.1.symm).trans hrow

/-- A request that is done with the listing. -/
theorem Inv.step_settled {path : Bytes} {c : Call} {k : Bytes → Handler Answer}
    (hentry : HasEntry v path) (h : Settled b folder path (.call c k)) :
    Inv b folder before (s.after i c (Call.exec master c s.store).2
      (k (Call.exec master c s.store).1)) := by
  rcases c with key | ⟨row, column⟩ | u
  · exact Inv.keep hbefore hall hrow (.settled hentry (by rw [progs_after]; exact h _))
  · exact Inv.keep hbefore hall hrow (.settled hentry (by rw [progs_after]; exact h _))
  · refine Inv.keep hbefore hall ?_ (.settled hentry (by rw [progs_after]; exact h.2 _))
    exact (Call.cells_exec_of_ne master s.store h.1.symm).trans hrow

end Step

/-- **One call keeps the invariant**, provided it is undisturbed. -/
theorem Inv.step {before : Bytes} {master : Master} (h : Inv b folder before s)
    (hun : s.Undisturbed b folder i) :
    Inv b folder before (Config.step (Call.exec master) s i) := by
  refine Config.inv_step h fun c k hprog => ?_
  obtain ⟨v, hrow, hbefore, hall⟩ := h
  cases hall i with
  | choosing h => exact Inv.step_choosing hrow hbefore hall (hprog ▸ h)
  | storing hstored h => exact Inv.step_storing hrow hbefore hall hstored (hprog ▸ h)
  | settled hentry h => exact Inv.step_settled hrow hbefore hall hentry (hprog ▸ h)
  | puts hread h =>
    obtain ⟨listing, k', hk', hkeeps, hentry, hsettled⟩ := h
    obtain ⟨rfl, rfl⟩ := Prog.call.inj (hprog.symm.trans hk')
    obtain rfl := hread (hun _ _ hprog rfl).1
    refine Inv.after hbefore hall ?_ hkeeps (Or.inl rfl) (.settled hentry ?_)
    · rw [Tablet.row, Call.cells_exec_put, Function.update_self]
    · rw [progs_after]
      exact hsettled _
  | swaps hread hstored h =>
    obtain ⟨listing, k', hk', hkeeps, hentry, hsettled⟩ := h
    obtain ⟨rfl, rfl⟩ := Prog.call.inj (hprog.symm.trans hk')
    obtain ⟨hup, hfound⟩ := hun _ _ hprog rfl
    obtain rfl := hread hup
    have hrow' : (Call.exec master (.update (.cput b (metaCol folder) v listing)) s.store).2.row b
        (metaCol folder) = some listing := by
      rw [Tablet.row, Call.cells_exec_cput_of_eq master s.store hrow, Function.update_self]
    rcases eq_or_ne listing v with rfl | hne
    · refine Inv.after hbefore hall hrow' hkeeps (Or.inr rfl) (.settled (hfound _ _ rfl hstored) ?_)
      rw [progs_after]
      exact hsettled _
    · refine Inv.after hbefore hall hrow' hkeeps (Or.inl ⟨rfl, hne.symm⟩)
        (.settled (hentry.resolve_left hne) ?_)
      rw [progs_after]
      exact hsettled _

variable {kvs : Tablet} {fuel : ι → ℕ} {requests : ι → StorageRequest} {names : ι → Bytes}
  {before : Bytes}

omit [DecidableEq ι] in
theorem inv_start (hfolder : IsFolderPath folder)
    (hadds : ∀ i, (requests i).AddsTo folder (names i))
    (hmeta : ∀ i, inFolder folder (names i) ≠ ascii "metadata")
    (hbefore : kvs.row b (metaCol folder) = some before) :
    Inv b folder before (start b kvs fuel requests) := by
  refine ⟨before, hbefore, KeepsEntries.refl before, fun i => .choosing ?_⟩
  have hadds := hadds i
  have hmeta := hmeta i
  show Choosing b folder ((requests i).handler b (fuel i))
  rcases hr : requests i with _ | ⟨folder', filename, fileData⟩ | ⟨parent, name⟩ | _ | _ | _ | _ | _
  all_goals rw [hr] at hadds
  · exact hadds.elim
  · obtain ⟨rfl, rfl⟩ := hadds
    exact choosing_upload hfolder (fuel i) fileData hmeta
  · obtain ⟨rfl, rfl⟩ := hadds
    exact choosing_createFolder hfolder hmeta
  all_goals exact hadds.elim

omit [DecidableEq ι] in
/-- A request that was answered has its item on the listing. -/
theorem Inv.kept (h : Inv b folder before s) : s.Kept b folder before := by
  obtain ⟨v, hrow, hbefore, hall⟩ := h
  refine ⟨v, hrow, hbefore, fun i page hpage => ?_⟩
  cases hall i with
  | choosing h =>
    rw [hpage] at h
    exact absurd rfl (h page)
  | storing _ h =>
    rw [hpage] at h
    exact h.elim
  | puts _ h =>
    obtain ⟨_, _, hk, -⟩ := h
    exact absurd (hpage.symm.trans hk) (by simp)
  | swaps _ _ h =>
    obtain ⟨_, _, hk, -⟩ := h
    exact absurd (hpage.symm.trans hk) (by simp)
  | settled hentry h =>
    rw [hpage] at h
    obtain ⟨k, hk⟩ := h page rfl
    exact ⟨_, k, hk, hentry⟩

end AdditionRace

variable {b folder before : Bytes} {kvs : Tablet} {fuel : ι → ℕ} {requests : ι → StorageRequest}
  {names : ι → Bytes} {master : Master}

/-- **Undisturbed additions are all kept**, however the calls of the requests are
interleaved. -/
theorem additions_kept (hfolder : IsFolderPath folder)
    (hadds : ∀ i, (requests i).AddsTo folder (names i))
    (hmeta : ∀ i, inFolder folder (names i) ≠ ascii "metadata")
    (hbefore : kvs.row b (metaCol folder) = some before) {s : AdditionRace ι}
    (h : Runs.Reaches (Config.step (Call.exec master)) (AdditionRace.Undisturbed b folder)
      (AdditionRace.start b kvs fuel requests) s) : s.Kept b folder before := by
  have hinv : s.Inv b folder before :=
    h.invariant (P := AdditionRace.Inv b folder before)
      (AdditionRace.inv_start hfolder hadds hmeta hbefore) fun t i ht hi => ht.step hi
  exact hinv.kept

end Races

/-! ### Two additions to the root -/

/-- A folder and a file. -/
def folderAndFile : Bool → StorageRequest
  | false => .createFolder [] (ascii "a")
  | true => .upload [] (ascii "c.txt") []

/-- Two folders. -/
def twoFolders : Bool → StorageRequest
  | false => .createFolder [] (ascii "a")
  | true => .createFolder [] (ascii "b")

/-- One after the other, a folder and a file are both on the listing. -/
theorem kept_folder_then_file : AdditionRace.Kept annsRow [] []
    ((List.replicate 6 false ++ List.replicate 5 true).foldl (Config.step (Call.exec Master.first))
      (AdditionRace.start annsRow lookedAt (fun _ => 0) folderAndFile)) := by
  have hquiet : ∀ {s : AdditionRace Bool} {i : Bool} {c : Call} {k : Bytes → Handler Answer},
      s.progs i = .call c k → (∀ u, c = .update u → u.cell ≠ (annsRow, metaCol [])) →
        s.Undisturbed annsRow [] i := by
    intro s i c k hprog hc u k' hprog' hcell
    exact absurd hcell (hc u (Prog.call.inj (hprog.symm.trans hprog')).1)
  have h0 : Runs.Reaches (Config.step (Call.exec Master.first))
      (AdditionRace.Undisturbed annsRow [])
      (AdditionRace.start annsRow lookedAt (fun _ => 0) folderAndFile) _ := Runs.Reaches.refl _
  have h1 := h0.tail (e := false) (hquiet rfl fun u hu => by cases hu)
  have h2 := h1.tail (e := false) (hquiet rfl fun u hu => by cases hu)
  have h3 := h2.tail (e := false) (hquiet rfl fun u hu => by cases hu)
  -- the folder is put on the listing that was read one call before
  have h4 := h3.tail (e := false) fun u k hprog _ => by
    refine ⟨Or.inl ⟨rfl, rfl⟩, fun text path hcput => ?_⟩
    have hu := (Prog.call.inj hprog).1
    rw [hcput] at hu
    exact absurd (Call.update.inj hu) (by simp)
  have h5 := h4.tail (e := false) (hquiet rfl fun u hu => by cases hu; decide)
  have h6 := h5.tail (e := false) (hquiet rfl fun u hu => by cases hu; decide)
  have h7 := h6.tail (e := true) (hquiet rfl fun u hu => by cases hu)
  have h8 := h7.tail (e := true) (hquiet rfl fun u hu => by cases hu)
  have h9 := h8.tail (e := true) (hquiet rfl fun u hu => by cases hu; decide)
  have h10 := h9.tail (e := true) (hquiet rfl fun u hu => by cases hu)
  -- and so is the file
  have h11 := h10.tail (e := true) fun u k hprog _ => by
    refine ⟨Or.inl ⟨rfl, rfl⟩, fun text path hcput => ?_⟩
    have hu := (Prog.call.inj hprog).1
    rw [hcput] at hu
    obtain ⟨-, -, hcur, hnew⟩ := Update.cput.inj (Call.update.inj hu)
    have heq : ascii "a" = ascii "a,c.txt" := hcur.trans hnew.symm
    exact absurd heq (by decide)
  have hadds : ∀ i, (folderAndFile i).AddsTo [] (if i then ascii "c.txt" else ascii "a") := by
    rintro (_ | _)
    · exact ⟨rfl, rfl⟩
    · exact ⟨rfl, rfl⟩
  exact additions_kept (Or.inl rfl) hadds (by decide) (by decide +kernel) h11

/-- **An addition is lost** when two folders are created and both requests read the
listing before either writes it. -/
theorem addition_lost : ∃ s : AdditionRace Bool,
    Runs.Reaches (Config.step (Call.exec Master.first)) (fun _ _ => True)
      (AdditionRace.start annsRow lookedAt (fun _ => 0) twoFolders) s ∧
    lookedAt.row annsRow (metaCol []) = some [] ∧
    (∀ i, ∃ page, s.progs i = .done (.ok page)) ∧ ¬s.Kept annsRow [] [] := by
  refine ⟨_, Runs.Reaches.foldl (List.replicate 3 false ++ List.replicate 3 true ++
    List.replicate 3 false ++ List.replicate 3 true) (fun _ _ _ => trivial) _, by decide +kernel,
    ?_, ?_⟩
  · rintro (_ | _)
    · exact ⟨.folderCreated (ascii "a") [] (ascii "a"), rfl⟩
    · exact ⟨.folderCreated (ascii "b") [] (ascii "b"), rfl⟩
  · rintro ⟨listing, hlisting, -, hkept⟩
    have hrow : ((List.replicate 3 false ++ List.replicate 3 true ++ List.replicate 3 false ++
        List.replicate 3 true).foldl (Config.step (Call.exec Master.first))
        (AdditionRace.start annsRow lookedAt (fun _ => 0) twoFolders)).store.row annsRow
          (metaCol []) = some (ascii "b") := by decide +kernel
    obtain rfl := Option.some.inj (hrow.symm.trans hlisting)
    obtain ⟨path, k, hplaced, hentry⟩ :=
      hkept false (.folderCreated (ascii "a") [] (ascii "a")) rfl
    obtain ⟨rfl, -⟩ : ascii "a" = path ∧ _ := by simpa [Page.placed] using hplaced
    have hnone : ¬∃ e ∈ splitStringStorage (ascii "b"), e ≠ [] ∧
        afterLast 47 e = afterLast 47 (ascii "a") := by decide
    exact hnone hentry

end PennCloud
