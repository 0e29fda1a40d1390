import PennCloud.Frontend.Storage.Subtrees

/-!
# Looking at a folder

To look at a folder is to read its listing, and should change nothing. It does when
the listing cannot be told from the text of an error: then the page is empty and the
listing is replaced by an empty one (`PennCloud.listing_emptied`, for a folder whose
name begins with `ERR`).

That a listing which can be read shows every live item of the folder is a property
of the history of the row. A row is **sound** when every live item is accounted for
(`PennCloud.Sound`), and it stays so as long as the requests are **careful**
(`PennCloud.StorageRequest.Careful`): each handler leaves out one case or another –
entries that contain the name of what is deleted, a listing that names paths of
another folder, a path that is taken by an item of the other kind, an item called
`metadata` at the root. In a row that careful requests lead to, looking at a folder
is a look exactly when its listing does not begin with `ERR`
(`PennCloud.looks_iff`).
-/

namespace PennCloud

open Wire Calls Text

/-! ### Sound rows -/

/-- The listing of the root is not a marker: there is no `-` in it. -/
def PlainRoot (R : Row) : Prop := ∀ v, R (ascii "metadata") = some v → 45 ∉ v

/-- **A sound row**: every live item is accounted for, and the listing of the root is
not a marker. -/
structure Sound (R : Row) : Prop where
  /-- The folder of an item is there and lists it. -/
  accounted : ∀ folder n, IsFolderPath folder → isValidName n = true →
    Live R (inFolder folder n) → Accounted R folder n
  /-- The root is a folder. -/
  root : PlainRoot R

section Sound

variable {R R' : Row}

theorem Sound.completeBelow (h : Sound R) (a : Bytes) : CompleteBelow R a :=
  fun folder n hfolder _ => h.accounted folder n (Or.inr hfolder)

/-- So no item is called `metadata`. -/
theorem PlainRoot.ne_of_live (h : PlainRoot R) {p : Bytes} (hlive : Live R p) :
    p ≠ ascii "metadata" := by
  rintro rfl
  rcases hlive with hlive | hlive
  · exact absurd (h _ hlive) (by decide)
  · exact absurd (h _ hlive) (by decide)

theorem PlainRoot.update (h : PlainRoot R) {folder : Bytes} {w : Option Bytes}
    (hw : folder = [] → ∀ v, w = some v → 45 ∉ v) :
    PlainRoot (Function.update R (metaCol folder) w) := by
  intro v hv
  by_cases hf : folder = []
  · rw [hf, show ascii "metadata" = metaCol [] from rfl, Function.update_self] at hv
    exact hw hf v hv
  · rw [Function.update_of_ne (metaCol_ne (by decide) fun h' => absurd h' hf).symm] at hv
    exact h v hv

/-- What happens to items that are not called `metadata` does not matter. -/
theorem PlainRoot.of_outside (h : PlainRoot R) {old new : Bytes} (hold : IsPath old)
    (hnew : IsPath new) (hne : old ≠ ascii "metadata") (hne' : new ≠ ascii "metadata")
    (hkeeps : ∀ c, ¬IsContent c → ¬Under old c → ¬Under new c → R' c = R c) : PlainRoot R' := by
  have hroot : ∀ a, IsPath a → a ≠ ascii "metadata" → ¬Under a (ascii "metadata") := by
    intro a ha hane hu
    rcases under_metaCol ha (Or.inl rfl : IsFolderPath []) hu with ⟨hp, -⟩ | ⟨-, heq⟩
    · exact hp.ne_nil rfl
    · exact hane heq
  intro v hv
  rw [hkeeps _ (fun hc => absurd hc.mem (by decide)) (hroot old hold hne) (hroot new hnew hne')]
    at hv
  exact h v hv

/-- Nothing lives below what is not a folder. -/
theorem Sound.not_live (h : Sound R) {a p : Bytes} (ha : R a ≠ some kvFolder) (hp : IsPath p)
    (hu : Under a p) (hne : p ≠ a) : ¬Live R p :=
  (h.completeBelow a).not_live ha hp hu hne

/-- **The rule for a change**: outside of the items `A` the markers are as before and
the listings keep what they list, and what lives in `A` is accounted for. -/
theorem Sound.of_changes (h : Sound R) {A : Bytes → Prop}
    (hdown : ∀ folder n, IsPath folder → A folder → A (inFolder folder n))
    (hmark : ∀ p, IsPath p → ¬A p → p ≠ ascii "metadata" → R' p = R p)
    (hlist : ∀ folder v e, IsFolderPath folder → R (metaCol folder) = some v →
      e ∈ splitStringStorage v → e ≠ [] → isValidName (afterLast 47 e) = true →
      Live R (inFolder folder (afterLast 47 e)) → ¬A (inFolder folder (afterLast 47 e)) →
        ∃ v', R' (metaCol folder) = some v' ∧ e ∈ splitStringStorage v')
    (hinside : ∀ folder n, IsFolderPath folder → isValidName n = true → A (inFolder folder n) →
      Live R' (inFolder folder n) → Accounted R' folder n)
    (hroot : PlainRoot R') : Sound R' := by
  refine ⟨fun folder n hfolder hn hlive => ?_, hroot⟩
  by_cases hA : A (inFolder folder n)
  · exact hinside folder n hfolder hn hA hlive
  · have hsame := hmark _ (IsPath.inFolder hfolder hn) hA (hroot.ne_of_live hlive)
    have hlive' : Live R (inFolder folder n) := by
      rw [Live, hsame] at hlive
      exact hlive
    obtain ⟨hex, v, hv, e, he, hne, rfl⟩ := h.accounted folder n hfolder hn hlive'
    constructor
    · rcases hfolder with hfolder | hfolder
      · exact Or.inl hfolder
      · have hfolder' := hex.resolve_left hfolder.ne_nil
        refine Or.inr ?_
        rw [hmark folder hfolder (fun hA' => hA (hdown folder _ hfolder hA'))
          (h.root.ne_of_live (Or.inr hfolder')), hfolder']
    · obtain ⟨v', hv', he'⟩ := hlist folder v e (by assumption) hv he hne hn hlive' hA
      exact ⟨v', hv', e, he', hne, rfl⟩

/-- **An item more**: its folder is there and lists it, and its path was free. -/
theorem Sound.put (h : Sound R) {folder n : Bytes} (hfolder : IsFolderPath folder)
    (hn : isValidName n = true) (hex : Existing R folder)
    (hmeta : inFolder folder n ≠ ascii "metadata") (hfree : ¬Live R (inFolder folder n))
    (hkeeps : KeepsBut (fun c => c = inFolder folder n ∨
      c = inFolder folder n ++ ascii "-metadata" ∨ c = metaCol folder) R R')
    (hlisted : Listed R' folder n)
    (hlist : ∀ v e, R (metaCol folder) = some v → e ∈ splitStringStorage v → e ≠ [] →
      ∃ v', R' (metaCol folder) = some v' ∧ e ∈ splitStringStorage v')
    (hroot : folder = [] → ∀ v, R' (metaCol folder) = some v → 45 ∉ v) : Sound R' := by
  have hpath := IsPath.inFolder hfolder hn
  have hfree' : R (inFolder folder n) ≠ some kvFolder := fun hf => hfree (Or.inr hf)
  have hmark : ∀ p, IsPath p → p ≠ inFolder folder n → p ≠ ascii "metadata" → R' p = R p := by
    intro p hp hne hne'
    refine hkeeps p hp.not_isContent ?_
    rintro (heq | heq | heq)
    · exact hne heq
    · exact ne_metadata_of_notMem hp.notMem_dash heq
    · exact metaCol_ne hp.notMem_dash (fun _ => hne') heq.symm
  refine h.of_changes (A := Under (inFolder folder n)) ?_ ?_ ?_ ?_ ?_
  · exact fun folder' n' hf hu => hu.trans (hf.under_inFolder n')
  · exact fun p hp hu => hmark p hp fun heq => hu (heq ▸ Under.refl _)
  · intro folder' v e hfolder' hv he hne hlast _ hu
    by_cases hff : folder' = folder
    · subst hff
      exact hlist v e hv he hne
    · refine ⟨v, ?_, he⟩
      rw [hkeeps _ (not_isContent_metaCol folder') ?_, hv]
      rintro (heq | heq | heq)
      · exact metaCol_ne hpath.notMem_dash (fun _ => hmeta) heq
      · refine metaCol_ne_metadata (fun heq' => hu ?_) heq
        rw [heq']
        exact hpath.under_inFolder _
      · exact hff (metaCol_inj heq)
  · intro folder' n' hfolder' hn' hu hlive
    rcases under_inFolder hfolder' hn' hu with heq | ⟨hf, hu'⟩
    · obtain rfl : folder' = folder := by
        rw [← @beforeLast_inFolder folder' n' hn', heq, beforeLast_inFolder hn]
      obtain rfl := inFolder_inj heq
      refine ⟨?_, hlisted⟩
      rcases hfolder with hf | hf
      · exact Or.inl hf
      · have hrow := hex.resolve_left hf.ne_nil
        refine Or.inr ?_
        rw [hmark _ hf (inFolder_ne_folder (isValidName_ne_nil hn)).symm
          (h.root.ne_of_live (Or.inr hrow)), hrow]
    · -- nothing lives below a path that is free
      have hp := IsPath.inFolder hfolder' hn'
      have hne : inFolder folder' n' ≠ inFolder folder n := by
        intro heq
        exact not_under_inFolder_self (isValidName_ne_nil hn') (heq ▸ hu')
      have hne' : inFolder folder' n' ≠ ascii "metadata" := fun heq =>
        hf.ne_nil (eq_nil_of_inFolder heq).1
      rw [Live, hmark _ hp hne hne'] at hlive
      exact absurd hlive (h.not_live hfree' hp hu hne)
  · intro v hv
    by_cases hf : folder = []
    · refine hroot hf v ?_
      rw [hf]
      exact hv
    · refine h.root v ?_
      rw [← hkeeps _ (fun hc => absurd hc.mem (by decide)) ?_, hv]
      rintro (heq | heq | heq)
      · exact hmeta heq.symm
      · exact ne_metadata_of_notMem (by decide) heq
      · exact metaCol_ne (by decide) (fun hf' => absurd hf' hf) heq.symm

/-- The same for a listing that was extended the way the handlers do. -/
theorem Sound.put_withUpload (h : Sound R) {folder n name text : Bytes}
    (hfolder : IsFolderPath folder) (hn : isValidName n = true) (hex : Existing R folder)
    (hmeta : inFolder folder n ≠ ascii "metadata") (hfree : ¬Live R (inFolder folder n))
    (hkeeps : KeepsBut (fun c => c = inFolder folder n ∨
      c = inFolder folder n ++ ascii "-metadata" ∨ c = metaCol folder) R R')
    (hlisting : R' (metaCol folder) = some (withUpload text name (inFolder folder n)))
    (htext : ∀ v, R (metaCol folder) = some v → v = text) (hdash : folder = [] → 45 ∉ text)
    (hname : name ∈ splitStringStorage text →
      ∃ e ∈ splitStringStorage text, e ≠ [] ∧ afterLast 47 e = n) : Sound R' := by
  have hpath := IsPath.inFolder hfolder hn
  refine h.put hfolder hn hex hmeta hfree hkeeps ⟨_, hlisting, ?_⟩ ?_ ?_
  · have hmem := @exists_mem_withUpload text _ name hpath.notMem_comma hpath.ne_nil
    rw [afterLast_inFolder hn] at hmem
    exact hmem hname
  · intro v e hv he hne
    rw [htext v hv] at he
    exact ⟨_, hlisting, mem_withUpload_of_mem name he hne⟩
  · intro hf v hv
    rw [← Option.some.inj (hlisting.symm.trans hv)]
    exact notMem_withUpload name (hdash hf) hpath.notMem_dash (by decide)

/-- **An item moved** from a folder to another, or to another name. -/
theorem Sound.move (h : Sound R) {folder n target m : Bytes} (hfolder : IsFolderPath folder)
    (hn : isValidName n = true) (htarget : IsFolderPath target) (hm : isValidName m = true)
    (hlive : Live R (inFolder folder n)) (hex : Existing R target)
    (habove : ¬Under (inFolder folder n) target) (hmeta : inFolder target m ≠ ascii "metadata")
    (hkeeps : ∀ c, ¬IsContent c → ¬Under (inFolder folder n) c → ¬Under (inFolder target m) c →
      c ≠ metaCol folder → c ≠ metaCol target → R' c = R c)
    (hgone : Free R' (inFolder folder n)) (hwhole : CompleteBelow R' (inFolder target m))
    (hlisted : Listed R' target m)
    (hlist : ∀ folder' v e, folder' = folder ∨ folder' = target → R (metaCol folder') = some v →
      e ∈ splitStringStorage v → e ≠ [] → (folder' = folder → e ≠ inFolder folder n) →
      ∃ v', R' (metaCol folder') = some v' ∧ e ∈ splitStringStorage v')
    (hroot : PlainRoot R') : Sound R' := by
  have hold := IsPath.inFolder hfolder hn
  have hnew := IsPath.inFolder htarget hm
  have hmark : ∀ p, IsPath p → ¬(Under (inFolder folder n) p ∨ Under (inFolder target m) p) →
      p ≠ ascii "metadata" → R' p = R p := by
    intro p hp hA hne
    obtain ⟨h1, h2⟩ := not_or.mp hA
    exact hkeeps p hp.not_isContent h1 h2 (metaCol_ne hp.notMem_dash fun _ => hne).symm
      (metaCol_ne hp.notMem_dash fun _ => hne).symm
  have holdmeta := h.root.ne_of_live hlive
  refine h.of_changes
    (A := fun p => Under (inFolder folder n) p ∨ Under (inFolder target m) p) ?_ hmark ?_ ?_ hroot
  · exact fun folder' n' hf hu => hu.imp (fun hu => hu.trans (hf.under_inFolder n'))
      fun hu => hu.trans (hf.under_inFolder n')
  · intro folder' v e hfolder' hv he hne hlast _ hA
    obtain ⟨h1, h2⟩ := not_or.mp hA
    by_cases hff : folder' = folder ∨ folder' = target
    · refine hlist folder' v e hff hv he hne fun hf heq => h1 ?_
      rw [heq, afterLast_inFolder hn, hf]
      exact Under.refl _
    · obtain ⟨hf1, hf2⟩ := not_or.mp hff
      refine ⟨v, ?_, he⟩
      rw [hkeeps _ (not_isContent_metaCol folder') ?_ ?_ (fun heq => hf1 (metaCol_inj heq))
        fun heq => hf2 (metaCol_inj heq), hv]
      · intro hu
        rcases under_metaCol hold hfolder' hu with ⟨hf, hu⟩ | ⟨-, heq⟩
        · exact h1 (hu.trans (hf.under_inFolder _))
        · exact holdmeta heq
      · intro hu
        rcases under_metaCol hnew hfolder' hu with ⟨hf, hu⟩ | ⟨-, heq⟩
        · exact h2 (hu.trans (hf.under_inFolder _))
        · exact hmeta heq
  · intro folder' n' hfolder' hn' hA hlive'
    rcases hA with hu | hu
    · exact absurd hlive' (hgone _ (IsPath.inFolder hfolder' hn') hu)
    · rcases under_inFolder hfolder' hn' hu with heq | ⟨hf, hu'⟩
      · obtain rfl : folder' = target := by
          rw [← @beforeLast_inFolder folder' n' hn', heq, beforeLast_inFolder hm]
        obtain rfl := inFolder_inj heq
        refine ⟨?_, hlisted⟩
        rcases htarget with hf | hf
        · exact Or.inl hf
        · have hrow := hex.resolve_left hf.ne_nil
          refine Or.inr ?_
          rw [hmark _ hf (not_or.mpr ⟨habove, not_under_inFolder_self (isValidName_ne_nil hm)⟩)
            (h.root.ne_of_live (Or.inr hrow)), hrow]
      · exact hwhole folder' n' hf hu' hn' hlive'

end Sound

/-! ### Careful requests -/

namespace StorageRequest

/-- **What a request must find** for the row to stay sound. -/
def Careful (R : Row) : StorageRequest → Prop
  | .list folder => ∀ v, R (metaCol folder) = some v → isErr v = false
  | .upload folder filename _ => Existing R folder ∧ ∃ listing, R (metaCol folder) = some listing ∧
    ∀ fname v, UploadsAs R folder filename fname v → v ≠ ascii "metadata" ∧ R v ≠ some kvFolder ∧
      (R (inFolder folder filename) = some kvFile → 46 ∉ folder ∧
        (fname ∈ splitStringStorage listing →
          ∃ e ∈ splitStringStorage listing, e ≠ [] ∧ afterLast 47 e = afterLast 47 v))
  | .createFolder parent name => Existing R parent ∧ inFolder parent name ≠ ascii "metadata"
  | .delete path => path ≠ ascii "metadata" ∧ Deletable R path ∧
    ∀ v, R (metaCol (beforeLast 47 path)) = some v → ∀ e ∈ splitStringStorage v,
      Live R (inFolder (beforeLast 47 path) (afterLast 47 e)) →
        afterLast 47 e ≠ afterLast 47 path → ¬afterLast 47 path <:+: e
  | .renameFile folder oldName newName => R (inFolder folder oldName) = some kvFile ∧
    inFolder folder (ensureSameExtension oldName newName) ≠ ascii "metadata" ∧
    R (inFolder folder (ensureSameExtension oldName newName)) ≠ some kvFolder ∧
    ∃ v, R (metaCol folder) = some v ∧ inFolder folder oldName ∈ splitStringStorage v
  | .renameFolder path newName => R path = some kvFolder ∧ Tidy R path ∧
    inFolder (beforeLast 47 path) newName ≠ ascii "metadata" ∧
    R (inFolder (beforeLast 47 path) newName) ≠ some kvFile ∧
    ∃ v, R (metaCol (beforeLast 47 path)) = some v ∧ path ∈ splitStringStorage v
  | .moveFile source filename target => R (inFolder source filename) = some kvFile ∧
    Existing R target ∧ inFolder target filename ≠ ascii "metadata"
  | .moveFolder source target => R source = some kvFolder ∧ Tidy R source ∧
    (∀ q, IsPath q → Under source q → R q = some kvFolder →
      ∀ v, R (q ++ ascii "-metadata") = some v → isErr v = false) ∧
    Existing R target ∧ inFolder target (afterLast 47 source) ≠ ascii "metadata" ∧
    ∀ v, R (metaCol target) = some v → isErr v = false

end StorageRequest

section Steps

variable {b : Bytes} {master : Master} {kvs s : Tablet}

/-- The text of the listing of the root has no `-`, also when there is none. -/
theorem PlainRoot.notMem_text (h : PlainRoot (kvs.row b)) {folder : Bytes} (hf : folder = []) :
    45 ∉ kvs.text b (metaCol folder) := by
  subst hf
  rcases hrow : kvs.row b (metaCol []) with _ | v
  · rcases Tablet.notFound_of_row hrow with ht | ht <;> rw [ht] <;> decide
  · rw [Tablet.text_of_row hrow]
    exact h v hrow

/-- A folder that is looked at. -/
theorem sound_list {folder : Bytes} (h : Sound (kvs.row b)) (hup : master.Up)
    (hcareful : StorageRequest.Careful (kvs.row b) (.list folder)) :
    Sound (((webStorageList b folder).run (Call.exec master) kvs).2.row b) := by
  rw [row_webStorageList hup]
  split_ifs with herr
  · have hnone : kvs.row b (metaCol folder) = none := by
      rcases hrow : kvs.row b (metaCol folder) with _ | v
      · rfl
      · rw [Tablet.text_of_row hrow, hcareful v hrow] at herr
        exact absurd herr (by decide)
    refine h.of_changes (A := fun _ => False) (fun _ _ _ => id) ?_ ?_ (fun _ _ _ _ h => h.elim) ?_
    · intro p hp _ hne
      exact Function.update_of_ne (metaCol_ne hp.notMem_dash fun _ => hne).symm ..
    · intro folder' v e _ hv he _ _ _ _
      refine ⟨v, ?_, he⟩
      rw [Row.reset, Function.update_of_ne, hv]
      rintro heq
      rw [heq, hnone] at hv
      exact absurd hv (by simp)
    · refine h.root.update fun _ v hv => ?_
      rw [← Option.some.inj hv]
      exact List.not_mem_nil
  · exact h

/-- A folder that is created. -/
theorem sound_createFolder {parent name : Bytes} {a : Answer} (h : Sound (kvs.row b))
    (hparent : IsFolderPath parent) (hname : isValidName name = true)
    (hcareful : StorageRequest.Careful (kvs.row b) (.createFolder parent name))
    (hrun : (webStorageCreateFolder b parent name).run (Call.exec master) kvs = (.ok a, s)) :
    Sound (s.row b) := by
  obtain ⟨hex, hmeta⟩ := hcareful
  rcases run_createFolder hrun with ⟨rfl, -⟩ | ⟨-, hfree, hrow⟩
  · exact h
  · have hpath := IsPath.inFolder hparent hname
    have hself := @inFolder_ne_folder parent name (isValidName_ne_nil hname)
    refine @Sound.put_withUpload _ _ h parent name name (kvs.text b (metaCol parent)) hparent hname
      hex hmeta hfree ?_ ?_ ?_ (fun hf => h.root.notMem_text hf) ?_
    · intro c hc hX
      obtain ⟨hX1, hX'⟩ := not_or.mp hX
      obtain ⟨hX2, hX3⟩ := not_or.mp hX'
      rw [hrow, Function.update_of_ne hX2, Function.update_of_ne hX1, Row.listed_of_ne hX3]
    · rw [hrow, Function.update_of_ne (metaCol_ne_metadata hself.symm),
        Function.update_of_ne (metaCol_ne hpath.notMem_dash fun _ => hmeta),
        Row.listed_metaCol (isValidName_ne_nil hname) fun hmem => ?_]
      -- the name is not in the text of an error, so there is a listing
      rcases hv : kvs.row b (metaCol parent) with _ | v
      · exact absurd hmem ((Tablet.notFound_of_row hv).notMem_split hname)
      · rw [Tablet.text_of_row hv]
    · exact fun v hv => (Tablet.text_of_row hv).symm
    · exact fun hmem => ⟨name, hmem, isValidName_ne_nil hname,
        afterLast_of_notMem (notMem_of_isValidName hname)⟩

/-- A file that is uploaded. -/
theorem sound_upload {fuel : ℕ} {folder filename fileData : Bytes} {a : Answer}
    (h : Sound (kvs.row b)) (hfolder : IsFolderPath folder) (hname : isValidName filename = true)
    (hcareful : StorageRequest.Careful (kvs.row b) (.upload folder filename fileData))
    (hrun : (webStorageUpload b fuel folder filename fileData).run (Call.exec master) kvs =
      (.ok a, s)) : Sound (s.row b) := by
  obtain ⟨hex, listing, hlisting, hto⟩ := hcareful
  rcases run_upload hrun with ⟨rfl, -⟩ | ⟨fname, v, huploads, hstore⟩
  · exact h
  · obtain ⟨hmeta, hfolder', hredirect⟩ := hto fname v huploads
    obtain ⟨n, rfl, hn, hfile, hentry⟩ := UploadsAs.exists_name huploads hname fun hfile =>
      (hredirect hfile).1
    obtain ⟨-, -, hlist, hkeeps⟩ := row_storeUpload hfolder hn hmeta hstore
    have hlist' : s.row b (metaCol folder) = some (withUpload listing fname
        (inFolder folder n)) := by
      rw [hlist, hlisting]
      rfl
    refine h.put_withUpload hfolder hn hex hmeta (fun hlive => hlive.elim hfile hfolder') hkeeps
      hlist' (fun v hv => Option.some.inj (hv.symm.trans hlisting)) ?_
      (hentry _ fun hf => (hredirect hf).2)
    intro hf
    refine h.root listing ?_
    rw [← hlisting, hf]
    rfl

/-- The pieces of a text without a `-` have none. -/
theorem notMem_dash_join {text : Bytes} {es : List Bytes} (h : 45 ∉ text)
    (hes : ∀ e ∈ es, e ∈ splitStringStorage text ∨ 45 ∉ e) : 45 ∉ joinStorage es := by
  refine notMem_intercalate (fun e he hmem => ?_) (by decide)
  rcases hes e he with he | he
  · exact h (mem_of_mem_splitOn he hmem)
  · exact he hmem

/-- An item that is deleted. -/
theorem sound_delete {fuel : ℕ} {folder n : Bytes} {a : Answer} (h : Sound (kvs.row b))
    (hblank : Blank (kvs.row b)) (hfolder : IsFolderPath folder) (hn : isValidName n = true)
    (hcareful : StorageRequest.Careful (kvs.row b) (.delete (inFolder folder n)))
    (hrun : (webStorageDelete b fuel (inFolder folder n)).run (Call.exec master) kvs = (.ok a, s)) :
    Sound (s.row b) := by
  obtain ⟨hmeta, hdel, hothers⟩ := hcareful
  rw [beforeLast_inFolder hn, afterLast_inFolder hn] at hothers
  have hpath := IsPath.inFolder hfolder hn
  have hcol : ¬Under (inFolder folder n) (metaCol folder) := not_under_metaCol fun hf heq =>
    hmeta (by rw [hf, heq]; rfl)
  rcases run_delete hrun with ⟨rfl, -⟩ | hrec
  · exact h
  · rw [beforeLast_inFolder hn, afterLast_inFolder hn] at hrec
    generalize hL : joinStorage ((splitStringStorage (kvs.text b (metaCol folder))).filter
      fun it => (cut n it).isNone) = L at hrec
    have hsame : ∀ c, Under (inFolder folder n) c → ¬IsContent c →
        (kvs.put b (metaCol folder) L).row b c = kvs.row b c := fun c hu _ => by
      rw [Tablet.row_put, Function.update_of_ne (ne_of_under hu hcol)]
    have hblank' : Blank ((kvs.put b (metaCol folder) L).row b) := by
      rw [Tablet.row_put]
      exact hblank.update (rooted_metaCol hfolder).not_isBlank _
    obtain ⟨hfree, hkeeps⟩ := free_deleteRec fuel hpath hblank'
      ((h.completeBelow _).congr hsame) (hdel.congr hsame) hrec
    rw [Tablet.row_put] at hkeeps
    refine h.of_changes (A := Under (inFolder folder n)) ?_ ?_ ?_ ?_ ?_
    · exact fun folder' n' hf hu => hu.trans (hf.under_inFolder n')
    · intro p hp hu hne
      rw [hkeeps p hp.not_isContent hu,
        Function.update_of_ne (metaCol_ne hp.notMem_dash fun _ => hne).symm]
    · intro folder' v e hfolder' hv he _ hlast hlive hu
      have hcol' : ¬Under (inFolder folder n) (metaCol folder') := by
        intro hu'
        rcases under_metaCol hpath hfolder' hu' with ⟨hf, hu'⟩ | ⟨-, heq⟩
        · exact hu (hu'.trans (hf.under_inFolder _))
        · exact hmeta heq
      rw [hkeeps _ (not_isContent_metaCol folder') hcol']
      by_cases hff : folder' = folder
      · subst hff
        refine ⟨L, Function.update_self .., ?_⟩
        rw [Tablet.text_of_row hv] at hL
        -- an entry that does not contain the name is kept
        have hkept : e ∈ (splitStringStorage v).filter fun it => (cut n it).isNone := by
          refine List.mem_filter.mpr ⟨he, ?_⟩
          rw [Option.isNone_iff_eq_none, ← Option.not_isSome_iff_eq_none, isSome_cut]
          refine hothers v hv e he hlive fun heq => hu ?_
          rw [heq]
          exact Under.refl _
        rw [← hL]
        exact (mem_split_join (fun e' he' => notMem_comma_of_mem (List.mem_filter.mp he').1)
          (List.ne_nil_of_mem hkept)).mpr hkept
      · exact ⟨v, by rw [Function.update_of_ne fun heq => hff (metaCol_inj heq), hv], he⟩
    · exact fun folder' n' hf hn' hu hlive =>
        absurd hlive (hfree _ (IsPath.inFolder hf hn') hu)
    · have hput : PlainRoot (Function.update (kvs.row b) (metaCol folder) (some L)) := by
        refine h.root.update fun hf v hv => ?_
        rw [← Option.some.inj hv, ← hL]
        exact notMem_dash_join (h.root.notMem_text hf) fun e he => Or.inl (List.mem_filter.mp he).1
      exact hput.of_outside hpath hpath hmeta hmeta fun c hc hu _ => hkeeps c hc hu

section Replace

variable {v old new e : Bytes}

theorem mem_replaceEntry_of_ne {es : List Bytes} (he : e ∈ es) (hne : e ≠ old) :
    e ∈ replaceEntry old new es :=
  List.mem_map.mpr ⟨e, he, if_neg hne⟩

theorem mem_replaceEntry_self {es : List Bytes} (h : old ∈ es) : new ∈ replaceEntry old new es :=
  List.mem_map.mpr ⟨old, h, if_pos rfl⟩

/-- What is left of an entry when one of the listing is replaced. -/
theorem mem_of_mem_replaceEntry {es : List Bytes} (h : e ∈ replaceEntry old new es) :
    e ∈ es ∨ e = new := by
  obtain ⟨e', he', rfl⟩ := List.mem_map.mp h
  by_cases heq : e' = old
  · rw [if_pos heq]
    exact Or.inr rfl
  · rw [if_neg heq]
    exact Or.inl he'

/-- The listing with an entry replaced has the entries it should have. -/
theorem mem_split_replaceEntry (hnew : 44 ∉ new) (h : e ∈ replaceEntry old new
    (splitStringStorage v)) :
    e ∈ splitStringStorage (joinStorage (replaceEntry old new (splitStringStorage v))) := by
  refine (mem_split_join (fun e' he' => ?_) (List.ne_nil_of_mem h)).mpr h
  rcases mem_of_mem_replaceEntry he' with he' | rfl
  · exact notMem_comma_of_mem he'
  · exact hnew

theorem notMem_dash_replaceEntry (hv : 45 ∉ v) (hnew : 45 ∉ new) :
    45 ∉ joinStorage (replaceEntry old new (splitStringStorage v)) := by
  refine notMem_dash_join hv fun e he => ?_
  rcases mem_of_mem_replaceEntry he with he | rfl
  · exact Or.inl he
  · exact Or.inr hnew

end Replace

/-- A file that is renamed. -/
theorem sound_renameFile {folder oldName newName : Bytes} {a : Answer} (h : Sound (kvs.row b))
    (hfolder : IsFolderPath folder) (hold : isValidName oldName = true)
    (hnew : isValidName newName = true)
    (hcareful : StorageRequest.Careful (kvs.row b) (.renameFile folder oldName newName))
    (hrun : (webStorageRenameFile b folder oldName newName).run (Call.exec master) kvs =
      (.ok a, s)) : Sound (s.row b) := by
  have hname := isValidName_ensureSameExtension hold hnew
  obtain ⟨hfile, hmeta, hnotfolder, v, hv, hmem⟩ := hcareful
  rcases run_renameFile hrun with ⟨rfl, -⟩ | ⟨hnotfile, t, ht, hrow⟩
  · exact h
  · generalize ensureSameExtension oldName newName = name at *
    have hlive : Live (kvs.row b) (inFolder folder oldName) := Or.inl hfile
    have hne : oldName ≠ name := by
      rintro rfl
      exact hnotfile hfile
    have hpath := IsPath.inFolder hfolder hold
    have hpath' := IsPath.inFolder hfolder hname
    have happart : Apart (inFolder folder oldName) (inFolder folder name) :=
      ⟨not_under_inFolder hname hne, not_under_inFolder hold hne.symm⟩
    have hfree : Free (kvs.row b) (inFolder folder name) := (h.completeBelow _).free fun hl =>
      hl.elim hnotfile hnotfolder
    have holdmeta := h.root.ne_of_live hlive
    have hcol : ∀ n, inFolder folder n ≠ ascii "metadata" →
        ¬Under (inFolder folder n) (metaCol folder) := fun n hn => not_under_metaCol fun hf heq =>
      hn (by rw [hf, heq]; rfl)
    have hlisting : t.row b (metaCol folder) = some v := by
      rw [relocateFile_outside ht (not_isContent_metaCol folder) (hcol _ holdmeta)
        (hcol _ hmeta), hv]
    rw [Tablet.text_of_row hlisting] at hrow
    obtain ⟨hgone, hwhole⟩ := relocateFile_whole happart (h.completeBelow _)
      (by rw [hfile]; decide) hfree ht
    have hsame : ∀ n, inFolder folder n ≠ ascii "metadata" → ∀ c, Under (inFolder folder n) c →
        ¬IsContent c → s.row b c = t.row b c := fun n hn c hu _ => by
      rw [hrow, Function.update_of_ne (ne_of_under hu (hcol n hn))]
    have hlist : s.row b (metaCol folder) = some (joinStorage (replaceEntry
        (inFolder folder oldName) (inFolder folder name) (splitStringStorage v))) := by
      rw [hrow, Function.update_self]
    refine h.move hfolder hold hfolder hname hlive
      (h.accounted folder oldName hfolder hold hlive).1
      (not_under_inFolder_self (isValidName_ne_nil hold)) hmeta ?_
      (hgone.congr (hsame _ holdmeta)) (hwhole.congr (hsame _ hmeta)) ?_ ?_ ?_
    · intro c hc h1 h2 h3 _
      rw [hrow, Function.update_of_ne h3, relocateFile_outside ht hc h1 h2]
    · exact ⟨_, hlist, _, mem_split_replaceEntry hpath'.notMem_comma (mem_replaceEntry_self hmem),
        hpath'.ne_nil, afterLast_inFolder hname⟩
    · intro folder' v' e hff hv' he _ hne'
      obtain rfl : folder' = folder := hff.elim id id
      obtain rfl : v' = v := Option.some.inj (hv'.symm.trans hv)
      exact ⟨_, hlist, mem_split_replaceEntry hpath'.notMem_comma
        (mem_replaceEntry_of_ne he (hne' rfl))⟩
    · have hroot : PlainRoot (t.row b) := h.root.of_outside hpath hpath' holdmeta hmeta
        fun c hc h1 h2 => relocateFile_outside ht hc h1 h2
      rw [hrow]
      refine hroot.update fun hf w hw => ?_
      have htext := hroot.notMem_text hf
      rw [Tablet.text_of_row hlisting] at htext
      rw [← Option.some.inj hw]
      exact notMem_dash_replaceEntry htext hpath'.notMem_dash

/-- A folder that is renamed. -/
theorem sound_renameFolder {fuel : ℕ} {folder n newName : Bytes} {a : Answer}
    (h : Sound (kvs.row b)) (hblank : Blank (kvs.row b)) (hfolder : IsFolderPath folder)
    (hn : isValidName n = true) (hnew : isValidName newName = true)
    (hcareful : StorageRequest.Careful (kvs.row b) (.renameFolder (inFolder folder n) newName))
    (hrun : (webStorageRenameFolder b fuel (inFolder folder n) newName).run (Call.exec master) kvs =
      (.ok a, s)) : Sound (s.row b) := by
  obtain ⟨hdir, htidy, hmeta, hnotfile, v, hv, hmem⟩ := hcareful
  rw [beforeLast_inFolder hn] at hmeta hnotfile hv
  rcases run_renameFolder hrun with ⟨rfl, -⟩ | ⟨hnotfolder, hmove⟩
  · exact h
  · rw [beforeLast_inFolder hn] at hnotfolder hmove
    rw [Tablet.text_of_row hv] at hmove
    generalize hL : joinStorage (replaceEntry (inFolder folder n) (inFolder folder newName)
      (splitStringStorage v)) = L at hmove
    have hlive : Live (kvs.row b) (inFolder folder n) := Or.inr hdir
    have hpath := IsPath.inFolder hfolder hn
    have hpath' := IsPath.inFolder hfolder hnew
    have hfree : Free (kvs.row b) (inFolder folder newName) := (h.completeBelow _).free fun hl =>
      hl.elim hnotfile hnotfolder
    have happart := apart_of_free hfolder hn hnew hdir hfree
    have holdmeta := h.root.ne_of_live hlive
    have hcol : ∀ m, inFolder folder m ≠ ascii "metadata" →
        ¬Under (inFolder folder m) (metaCol folder) := fun m hm => not_under_metaCol fun hf heq =>
      hm (by rw [hf, heq]; rfl)
    -- the listing is written before the folder is moved
    have hsame : ∀ m, inFolder folder m ≠ ascii "metadata" → ∀ c, Under (inFolder folder m) c →
        (kvs.put b (metaCol folder) L).row b c = kvs.row b c := fun m hm c hu => by
      rw [Tablet.row_put, Function.update_of_ne (ne_of_under hu (hcol m hm))]
    have hblank' : Blank ((kvs.put b (metaCol folder) L).row b) := by
      rw [Tablet.row_put]
      exact hblank.update (rooted_metaCol hfolder).not_isBlank _
    have hdir' := (hsame n holdmeta _ (Under.refl _)).trans hdir
    have htidy' := htidy.congr (hsame n holdmeta)
    obtain ⟨hgone, hwhole⟩ := completeBelow_moveTree (k := .rename) fuel hpath hpath' happart
      hblank' hdir' htidy' ((h.completeBelow _).congr fun c hu _ => hsame n holdmeta c hu)
      (walks_rename _ _) (hfree.congr fun c hu _ => hsame newName hmeta c hu) hmove
    have hkeeps : ∀ c, ¬Under (inFolder folder n) c → ¬Under (inFolder folder newName) c →
        s.row b c = Function.update (kvs.row b) (metaCol folder) (some L) c := by
      have hkeeps := @safeMove_moveTree .rename b master fuel _ _ hpath hpath' happart _ hblank'
        hdir' htidy'
      rw [hmove, Tablet.row_put] at hkeeps
      exact hkeeps
    have hlist : s.row b (metaCol folder) = some L := by
      rw [hkeeps _ (hcol n holdmeta) (hcol newName hmeta), Function.update_self]
    refine h.move hfolder hn hfolder hnew hlive (h.accounted folder n hfolder hn hlive).1
      (not_under_inFolder_self (isValidName_ne_nil hn)) hmeta ?_ hgone hwhole ?_ ?_ ?_
    · intro c _ h1 h2 h3 _
      rw [hkeeps c h1 h2, Function.update_of_ne h3]
    · refine ⟨L, hlist, inFolder folder newName, ?_, hpath'.ne_nil, afterLast_inFolder hnew⟩
      rw [← hL]
      exact mem_split_replaceEntry hpath'.notMem_comma (mem_replaceEntry_self hmem)
    · intro folder' v' e hff hv' he _ hne'
      obtain rfl : folder' = folder := hff.elim id id
      obtain rfl : v' = v := Option.some.inj (hv'.symm.trans hv)
      refine ⟨L, hlist, ?_⟩
      rw [← hL]
      exact mem_split_replaceEntry hpath'.notMem_comma (mem_replaceEntry_of_ne he (hne' rfl))
    · have hput : PlainRoot (Function.update (kvs.row b) (metaCol folder) (some L)) := by
        refine h.root.update fun hf w hw => ?_
        have htext := h.root.notMem_text hf
        rw [Tablet.text_of_row hv] at htext
        rw [← Option.some.inj hw, ← hL]
        exact notMem_dash_replaceEntry htext hpath'.notMem_dash
      exact hput.of_outside hpath hpath' holdmeta hmeta fun c _ h1 h2 => hkeeps c h1 h2

/-! ### From one folder to another -/

/-- Taking an entry off a listing keeps the other entries. -/
theorem removeEntry_keeps {folder entry : Bytes}
    (h : (removeEntry b folder entry).run (Call.exec master) kvs = (.ok (), s))
    {folder' v e : Bytes} (hv : kvs.row b (metaCol folder') = some v)
    (he : e ∈ splitStringStorage v) (hne : folder' = folder → e ≠ entry) :
    ∃ v', s.row b (metaCol folder') = some v' ∧ e ∈ splitStringStorage v' := by
  obtain ⟨t, ht, hrow⟩ := @run_removeEntry b master kvs folder entry
  obtain ⟨-, rfl⟩ := Prod.mk.inj (ht.symm.trans h)
  by_cases hff : folder' = folder
  · subst hff
    rw [Tablet.text_of_row hv] at hrow
    have hkept : e ∈ keptEntries entry v := mem_keptEntries.mpr ⟨he, hne rfl⟩
    refine ⟨joinStorage (keptEntries entry v), ?_, ?_⟩
    · rw [hrow, Function.update_self, if_neg (List.ne_nil_of_mem hkept)]
    · exact (mem_split_join (fun e' he' => notMem_comma_of_mem (mem_keptEntries.mp he').1)
        (List.ne_nil_of_mem hkept)).mpr hkept
  · exact ⟨v, by rw [hrow, Function.update_of_ne fun heq => hff (metaCol_inj heq), hv], he⟩

theorem PlainRoot.removeEntry (hroot : PlainRoot (kvs.row b)) {folder entry : Bytes}
    (h : (removeEntry b folder entry).run (Call.exec master) kvs = (.ok (), s)) :
    PlainRoot (s.row b) := by
  obtain ⟨t, ht, hrow⟩ := @run_removeEntry b master kvs folder entry
  obtain ⟨-, rfl⟩ := Prod.mk.inj (ht.symm.trans h)
  rw [hrow]
  refine hroot.update fun hf w hw => ?_
  split_ifs at hw
  rw [← Option.some.inj hw]
  exact notMem_dash_join (hroot.notMem_text hf) fun e he => Or.inl (mem_keptEntries.mp he).1

/-- **An item moved to another folder**: the item is at its new path and gone from the
old one, then it is put on the listing of the target, and then taken off the other. -/
theorem Sound.relocate (h : Sound (kvs.row b)) {t : Tablet} {folder n target m L : Bytes}
    (hfolder : IsFolderPath folder) (hn : isValidName n = true) (htarget : IsFolderPath target)
    (hm : isValidName m = true) (hlive : Live (kvs.row b) (inFolder folder n))
    (hex : Existing (kvs.row b) target) (hmeta : inFolder target m ≠ ascii "metadata")
    (happart : Apart (inFolder folder n) (inFolder target m))
    (hkeeps : ∀ c, ¬IsContent c → ¬Under (inFolder folder n) c → ¬Under (inFolder target m) c →
      t.row b c = kvs.row b c)
    (hgone : Free (t.row b) (inFolder folder n))
    (hwhole : CompleteBelow (t.row b) (inFolder target m))
    (hnew : inFolder target m ∈ splitStringStorage L)
    (hothers : ∀ v, kvs.row b (metaCol target) = some v → t.row b (metaCol target) = some v →
      ∀ e ∈ splitStringStorage v, e ≠ [] → e ∈ splitStringStorage L)
    (hdash : target = [] → 45 ∉ t.text b (metaCol target) → 45 ∉ L)
    (hremove : (removeEntry b folder (inFolder folder n)).run (Call.exec master)
      (t.put b (metaCol target) L) = (.ok (), s)) : Sound (s.row b) := by
  have hold := IsPath.inFolder hfolder hn
  have hpath := IsPath.inFolder htarget hm
  have holdmeta := h.root.ne_of_live hlive
  have habove : ¬Under (inFolder folder n) target := by
    intro hu
    rcases htarget with rfl | hp
    · exact hold.not_under_blank (by simp) hu
    · exact happart.1 (hu.trans (hp.under_inFolder m))
  -- the two listings belong to neither of the two items
  have hcol : ∀ folder', folder' = folder ∨ folder' = target →
      ¬Under (inFolder folder n) (metaCol folder') ∧
        ¬Under (inFolder target m) (metaCol folder') := by
    have hcol' : ∀ a folder', IsPath a → IsFolderPath folder' → a ≠ ascii "metadata" →
        ¬Under a folder' → ¬Under a (metaCol folder') := fun a folder' ha hf hne hnot hu =>
      (under_metaCol ha hf hu).elim (fun hu => hnot hu.2) fun heq => hne heq.2
    have hbelow : ¬Under (inFolder target m) folder := by
      intro hu
      rcases hfolder with rfl | hp
      · exact hpath.not_under_blank (by simp) hu
      · exact happart.2 (hu.trans (hp.under_inFolder n))
    rintro folder' (rfl | rfl)
    · exact ⟨hcol' _ _ hold hfolder holdmeta (not_under_inFolder_self (isValidName_ne_nil hn)),
        hcol' _ _ hpath hfolder hmeta hbelow⟩
    · exact ⟨hcol' _ _ hold htarget holdmeta habove,
        hcol' _ _ hpath htarget hmeta (not_under_inFolder_self (isValidName_ne_nil hm))⟩
  have hsame : ∀ c, c ≠ metaCol folder → c ≠ metaCol target → s.row b c = t.row b c := by
    intro c h1 h2
    rw [removeEntry_of_ne h1 hremove, Tablet.row_put, Function.update_of_ne h2]
  have hput : (t.put b (metaCol target) L).row b (metaCol target) = some L := by
    rw [Tablet.row_put, Function.update_self]
  refine h.move hfolder hn htarget hm hlive hex habove hmeta ?_ (hgone.congr ?_)
    (hwhole.congr ?_) ?_ ?_ ?_
  · exact fun c hc h1 h2 h3 h4 => (hsame c h3 h4).trans (hkeeps c hc h1 h2)
  · exact fun c hu _ => hsame c (ne_of_under hu (hcol folder (Or.inl rfl)).1)
      (ne_of_under hu (hcol target (Or.inr rfl)).1)
  · exact fun c hu _ => hsame c (ne_of_under hu (hcol folder (Or.inl rfl)).2)
      (ne_of_under hu (hcol target (Or.inr rfl)).2)
  · obtain ⟨v', hv', hmem⟩ := removeEntry_keeps hremove hput hnew fun _ heq =>
      happart.1 (heq ▸ Under.refl _)
    exact ⟨v', hv', _, hmem, hpath.ne_nil, afterLast_inFolder hm⟩
  · intro folder' v e hff hv he hne hneq
    have hv' : t.row b (metaCol folder') = some v := by
      rw [hkeeps _ (not_isContent_metaCol folder') (hcol folder' hff).1 (hcol folder' hff).2, hv]
    by_cases htf : folder' = target
    · subst htf
      exact removeEntry_keeps hremove hput (hothers v hv hv' e he hne) hneq
    · refine removeEntry_keeps hremove ?_ he hneq
      rw [Tablet.row_put, Function.update_of_ne fun heq => htf (metaCol_inj heq), hv']
  · have hroot : PlainRoot (t.row b) := h.root.of_outside hold hpath holdmeta hmeta hkeeps
    refine PlainRoot.removeEntry ?_ hremove
    rw [Tablet.row_put]
    refine hroot.update fun hf w hw => ?_
    rw [← Option.some.inj hw]
    exact hdash hf (hroot.notMem_text hf)

/-- A file that is moved. -/
theorem sound_moveFile {fuel : ℕ} {source filename target : Bytes} {a : Answer}
    (h : Sound (kvs.row b)) (hsource : IsFolderPath source) (hname : isValidName filename = true)
    (htarget : IsFolderPath target)
    (hcareful : StorageRequest.Careful (kvs.row b) (.moveFile source filename target))
    (hrun : (webStorageMoveFile b fuel source filename target).run (Call.exec master) kvs =
      (.ok a, s)) : Sound (s.row b) := by
  obtain ⟨hfile, hex, hmeta⟩ := hcareful
  rcases run_moveFile hname hrun with ⟨rfl, -⟩ | ⟨v, -, hfree, t, ht, hremove⟩
  · exact h
  · obtain ⟨-, hnot, -⟩ := run_freeTarget hfree
    have hmeta' := freeTarget_ne_metadata hmeta hfree
    obtain ⟨m, hm, rfl⟩ := exists_name_of_freeTarget hname hfree
    have hold := IsPath.inFolder hsource hname
    have hnew := IsPath.inFolder htarget hm
    have hlive : Live (kvs.row b) (inFolder source filename) := Or.inl hfile
    have hnotfolder : kvs.row b (inFolder source filename) ≠ some kvFolder := by
      rw [hfile]
      decide
    have hne : inFolder target m ≠ inFolder source filename := fun heq => hnot (heq ▸ hlive)
    -- nothing lives below a file, or below a path that is free
    have happart : Apart (inFolder source filename) (inFolder target m) := by
      constructor
      · intro hu
        rcases under_inFolder htarget hm hu with heq | ⟨hp, hu⟩
        · exact hne heq
        · have hdir := hex.resolve_left hp.ne_nil
          by_cases heq : target = inFolder source filename
          · exact hnotfolder (heq ▸ hdir)
          · exact h.not_live hnotfolder hp hu heq (Or.inr hdir)
      · exact fun hu => h.not_live (fun hf => hnot (Or.inr hf)) hold hu hne.symm hlive
    obtain ⟨hgone, hwhole⟩ := relocateFile_whole happart (h.completeBelow _) hnotfolder
      ((h.completeBelow _).free hnot) ht
    rw [joinStorage_concat hnew.notMem_comma] at hremove
    refine h.relocate hsource hname htarget hm hlive hex hmeta' happart
      (fun c hc h1 h2 => relocateFile_outside ht hc h1 h2) hgone hwhole ?_ ?_ ?_ hremove
    · refine mem_split_append.mpr (Or.inr ?_)
      rw [splitStringStorage_of_notMem hnew.notMem_comma]
      exact List.mem_cons_self
    · intro v _ hv e he _
      rw [Tablet.text_of_row hv]
      exact mem_split_append.mpr (Or.inl he)
    · intro _ hdash
      simp [hdash, hnew.notMem_dash]

/-- A folder that is moved. -/
theorem sound_moveFolder {fuel : ℕ} {folder n target : Bytes} {a : Answer}
    (h : Sound (kvs.row b)) (hblank : Blank (kvs.row b)) (hfolder : IsFolderPath folder)
    (hn : isValidName n = true) (htarget : IsFolderPath target)
    (hcareful : StorageRequest.Careful (kvs.row b) (.moveFolder (inFolder folder n) target))
    (hrun : (webStorageMoveFolder b fuel (inFolder folder n) target).run (Call.exec master) kvs =
      (.ok a, s)) : Sound (s.row b) := by
  obtain ⟨hdir, htidy, hread, hex, hmeta, hlisting⟩ := hcareful
  rw [afterLast_inFolder hn] at hmeta
  rcases run_moveFolder hn hrun with ⟨rfl, -⟩ | ⟨hguard, hunlisted, -, t, ht, hremove⟩
  · exact h
  · have hold := IsPath.inFolder hfolder hn
    have hnew := IsPath.inFolder htarget hn
    -- a live item of that name would be on the listing
    have hnot : ¬Live (kvs.row b) (inFolder target n) := by
      intro hl
      obtain ⟨-, v, hv, e, he, -, hlast⟩ := h.accounted target n htarget hn hl
      rw [Tablet.text_of_row hv] at hunlisted
      exact hunlisted (hlisting v hv) e he hlast
    have hfree := (h.completeBelow (inFolder target n)).free hnot
    have happart := apart_of_guard hold htarget hn hdir hfree hguard
    obtain ⟨hgone, hwhole⟩ := completeBelow_moveTree fuel hold hnew happart hblank hdir htidy
      (h.completeBelow _) (walks_relocate hread) hfree ht
    have hkeeps : KeepsOutside (inFolder folder n) (inFolder target n) (kvs.row b) (t.row b) := by
      have hkeeps := @safeMove_moveTree .relocate b master fuel _ _ hold hnew happart kvs hblank
        hdir htidy
      rwa [ht] at hkeeps
    have hself : inFolder target n ∈ splitStringStorage (inFolder target n) := by
      rw [splitStringStorage_of_notMem hnew.notMem_comma]
      exact List.mem_cons_self
    refine h.relocate hfolder hn htarget hn (Or.inr hdir) hex hmeta happart
      (fun c _ h1 h2 => hkeeps c h1 h2) hgone hwhole ?_ ?_ ?_ hremove
    · split_ifs
      · exact hself
      · exact mem_split_append.mpr (Or.inr hself)
    · intro v hv hv' e he hne
      have hvne : v ≠ [] := by
        rintro rfl
        exact hne (by simpa [splitStringStorage] using he)
      rw [Tablet.text_of_row hv', if_neg (by simp [hlisting v hv, hvne])]
      exact mem_split_append.mpr (Or.inl he)
    · intro _ hdash
      split_ifs
      · exact hnew.notMem_dash
      · simp [hdash, hnew.notMem_dash]

/-! ### Looking -/

/-- A request comes to an end with an answer. -/
def StorageRequest.Answered (master : Master) (b : Bytes) (kvs : Tablet) (e : StorageEvent) :
    Prop :=
  ∃ a, ((e.2.handler b e.1).run (Call.exec master) kvs).1 = .ok a

/-- **A careful request keeps a row sound.** -/
theorem sound_step (hup : master.Up) (h : Sound (kvs.row b)) (hblank : Blank (kvs.row b))
    {e : StorageEvent} (hvalid : e.2.Valid) (hcareful : e.2.Careful (kvs.row b))
    (hanswered : StorageRequest.Answered master b kvs e) :
    Sound ((StorageRequest.step master b kvs e).row b) := by
  obtain ⟨fuel, r⟩ := e
  obtain ⟨a, ha⟩ := hanswered
  have hrun : (r.handler b fuel).run (Call.exec master) kvs =
      (.ok a, StorageRequest.step master b kvs (fuel, r)) := Prod.ext ha rfl
  cases r with
  | list folder => exact sound_list h hup hcareful
  | upload folder filename fileData => exact sound_upload h hvalid.1 hvalid.2 hcareful hrun
  | createFolder parent name => exact sound_createFolder h hvalid.1 hvalid.2 hcareful hrun
  | delete path =>
    obtain ⟨folder, n, hfolder, hn, rfl⟩ := IsPath.exists_inFolder hvalid
    exact sound_delete h hblank hfolder hn hcareful hrun
  | renameFile folder oldName newName =>
    exact sound_renameFile h hvalid.1 hvalid.2.1 hvalid.2.2 hcareful hrun
  | renameFolder path newName =>
    obtain ⟨folder, n, hfolder, hn, rfl⟩ := hvalid.1.exists_inFolder
    exact sound_renameFolder h hblank hfolder hn hvalid.2 hcareful hrun
  | moveFile source filename target =>
    exact sound_moveFile h hvalid.1 hvalid.2.1 hvalid.2.2 hcareful hrun
  | moveFolder source target =>
    obtain ⟨folder, n, hfolder, hn, rfl⟩ := hvalid.1.exists_inFolder
    exact sound_moveFolder h hblank hfolder hn hvalid.2 hcareful hrun

/-- A careful step: the paths are valid, the row is as it must be, and there is an
answer. -/
def StorageRequest.CarefulStep (master : Master) (b : Bytes) (kvs : Tablet) (e : StorageEvent) :
    Prop :=
  e.2.Valid ∧ e.2.Careful (kvs.row b) ∧ StorageRequest.Answered master b kvs e

/-- **Every row that careful requests lead to is sound.** -/
theorem sound_of_reaches (hup : master.Up) {kvs₀ : Tablet} (h0 : ∀ c, kvs₀.row b c = none)
    (h : Runs.Reaches (StorageRequest.step master b) (StorageRequest.CarefulStep master b) kvs₀
      kvs) : Sound (kvs.row b) := by
  have hinv : Sound (kvs.row b) ∧ Blank (kvs.row b) := by
    refine h.invariant (P := fun s : Tablet => Sound (s.row b) ∧ Blank (s.row b)) ?_ ?_
    · refine ⟨⟨fun folder n _ _ hlive => ?_, fun v hv => ?_⟩, fun c _ => h0 c⟩
      · rw [Live, h0] at hlive
        exact absurd hlive (by simp)
      · rw [h0] at hv
        exact absurd hv (by simp)
    · rintro t e ⟨hsound, hblank⟩ ⟨hvalid, hcareful, hanswered⟩
      exact ⟨sound_step hup hsound hblank hvalid hcareful hanswered,
        KeepsBlank.handler hvalid e.1 t hblank⟩
  exact hinv.1

/-- **Looking at a folder is only a look**: a listing with a live item on it stays as it
is, every live item of the folder is shown, and no listing is emptied. -/
def Looks (master : Master) (b : Bytes) (kvs kvs' : Tablet) (folder : Bytes) : Prop :=
  (∀ folder' n, IsFolderPath folder' → isValidName n = true →
    Live (kvs.row b) (inFolder folder' n) → Listed (kvs.row b) folder' n →
      kvs'.row b (metaCol folder') = kvs.row b (metaCol folder')) ∧
  (∀ n k, isValidName n = true → kvs.row b (inFolder folder n) = some k.marker →
    (n, k) ∈ shown master b kvs folder) ∧
  ∀ folder' v, IsFolderPath folder' → kvs.row b (metaCol folder') = some v → v ≠ [] →
    kvs'.row b (metaCol folder') ≠ some []

/-- **When looking is only a look**, in a row that careful requests lead to: when the
listing, if there is one, does not begin with `ERR`. -/
theorem looks_iff (hup : master.Up) {kvs₀ : Tablet} (h0 : ∀ c, kvs₀.row b c = none)
    (h : Runs.Reaches (StorageRequest.step master b) (StorageRequest.CarefulStep master b) kvs₀
      kvs) {folder : Bytes} (hfolder : IsFolderPath folder) (fuel : ℕ) :
    Looks master b kvs (StorageRequest.step master b kvs (fuel, .list folder)) folder ↔
      ∀ v, kvs.row b (metaCol folder) = some v → isErr v = false := by
  have hsound := sound_of_reaches hup h0 h
  have hrow : (StorageRequest.step master b kvs (fuel, .list folder)).row b =
      if isErr (kvs.text b (metaCol folder)) then (kvs.row b).reset folder else kvs.row b :=
    row_webStorageList hup folder
  constructor
  · rintro ⟨-, -, hempty⟩ v hv
    rcases herr : isErr v with _ | _
    · rfl
    · rw [hrow, Tablet.text_of_row hv, herr, if_pos rfl] at hempty
      refine absurd (Function.update_self ..) (hempty folder v hfolder hv ?_)
      rintro rfl
      exact absurd herr (by decide)
  · intro hread
    rcases hcol : kvs.row b (metaCol folder) with _ | v
    · -- without a listing nothing lives here, and an empty listing is made
      rw [Looks, hrow, Tablet.isErr_of_none hcol, if_pos rfl]
      have hother : ∀ folder', kvs.row b (metaCol folder') ≠ none →
          (kvs.row b).reset folder (metaCol folder') = kvs.row b (metaCol folder') := by
        intro folder' hne
        refine Function.update_of_ne (fun heq => hne ?_) _ _
        rw [metaCol_inj heq, hcol]
      refine ⟨?_, ?_, ?_⟩
      · rintro folder' n - - - ⟨v', hv', -⟩
        exact hother folder' (by simp [hv'])
      · intro n k hn hk
        obtain ⟨-, v', hv', -⟩ := hsound.accounted folder n hfolder hn (live_iff.mpr ⟨k, hk⟩)
        exact absurd (hcol.symm.trans hv') (by simp)
      · intro folder' v' _ hv' hne
        rw [hother folder' (by simp [hv']), hv']
        simpa using hne
    · have herr := hread v hcol
      rw [Looks, hrow, Tablet.text_of_row hcol, herr, if_neg (by decide)]
      refine ⟨fun _ _ _ _ _ _ => rfl, ?_, ?_⟩
      · intro n k hn hk
        obtain ⟨hex, v', hv', hentry⟩ :=
          hsound.accounted folder n hfolder hn (live_iff.mpr ⟨k, hk⟩)
        obtain ⟨e, he, hne, hlast⟩ := hentry
        obtain rfl := Option.some.inj (hcol.symm.trans hv')
        refine (mem_shown_iff hup).mpr ⟨v, hcol, herr, ?_, e, he, hne, hlast, hk⟩
        refine hex.imp_right fun hf => ?_
        rw [hf]
        decide
      · intro folder' v' _ hv' hne
        rw [hv']
        simpa using hne

end Steps

/-! ### A listing that is emptied -/

/-- Ann's folder `a` stays where it is when she looks at it. -/
theorem looks_folderA : Looks Master.first annsRow folderA
    (StorageRequest.step Master.first annsRow folderA (0, .list [])) [] := by
  have hlook : StorageRequest.CarefulStep Master.first annsRow ∅ (0, .list []) := by
    refine ⟨Or.inl rfl, ?_, Answer.ok (.listing [] none), ?_⟩
    · intro v hv
      exact absurd hv (Option.some_ne_none v).symm
    · decide +kernel
  have hcreate : StorageRequest.CarefulStep Master.first annsRow
      (StorageRequest.step Master.first annsRow ∅ (0, .list []))
      (0, .createFolder [] (ascii "a")) := by
    refine ⟨⟨Or.inl rfl, by decide⟩, ⟨Or.inl rfl, by decide⟩,
      Answer.ok (.folderCreated (ascii "a") [] (ascii "a")), ?_⟩
    decide +kernel
  have hreach : Runs.Reaches (StorageRequest.step Master.first annsRow)
      (StorageRequest.CarefulStep Master.first annsRow) ∅ folderA :=
    ((Runs.Reaches.refl ∅).tail hlook).tail hcreate
  have hlisting : folderA.row annsRow (metaCol []) = some (ascii "a") := by decide +kernel
  refine (looks_iff Master.up_first (fun _ => rfl) hreach (Or.inl rfl) 0).mpr fun v hv => ?_
  rw [← Option.some.inj (hlisting.symm.trans hv)]
  decide

/-- Ann has looked at her storage and has made a folder `ERRATA`. -/
def errata : Tablet :=
  [(0, .list []), (0, .createFolder [] (ascii "ERRATA"))].foldl
    (StorageRequest.step Master.first annsRow) ∅

/-- **Looking empties a listing**: the one with the folder `ERRATA` on it. -/
theorem listing_emptied :
    Runs.Reaches (StorageRequest.step Master.first annsRow) (fun _ e => e.2.Valid) ∅ errata ∧
    ¬Looks Master.first annsRow errata
      (StorageRequest.step Master.first annsRow errata (0, .list [])) [] := by
  constructor
  · refine Runs.Reaches.foldl _ (fun _ e he => ?_) _
    rcases List.mem_cons.mp he with rfl | he
    · exact Or.inl rfl
    · obtain rfl := List.mem_singleton.mp he
      exact ⟨Or.inl rfl, by decide⟩
  · rintro ⟨-, -, hempty⟩
    have hlisting : errata.row annsRow (metaCol []) = some (ascii "ERRATA") := by decide +kernel
    refine hempty [] (ascii "ERRATA") (Or.inl rfl) hlisting (by decide) ?_
    decide +kernel

end PennCloud
