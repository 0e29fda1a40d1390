import PennCloud.Frontend.Storage.FileSystem

/-!
# What the handlers do to the tree

Each handler of the web storage, in a row that represents a tree, and when it finds
there what it needs: the row it leaves represents the tree with one item more, one
subtree less, or a subtree elsewhere. What an operation needs is stated on the row and
is the same for all that put something at a new path (`PennCloud.CanHold`).

* Looking at a folder: `PennCloud.Represents.webStorageList`.
* A folder or a file more: `PennCloud.Represents.webStorageCreateFolder`,
  `PennCloud.Represents.storeUpload`.
* A subtree less: `PennCloud.Represents.webStorageDelete`.
* A file or a folder elsewhere: `PennCloud.Represents.webStorageRenameFile`,
  `PennCloud.Represents.webStorageMoveFile`, `PennCloud.Represents.webStorageMoveFolder`,
  `PennCloud.Represents.webStorageRenameFolder`.
-/

namespace PennCloud

open Wire Calls Text

/-- A path at which something new can be put: nothing is there, it is not the path of the
root's listing, and it does not begin like the text of an error. -/
structure CanHold (R : Row) (v : Bytes) : Prop where
  /-- Nothing is there. -/
  free : ¬Live R v
  /-- The listing of the root is elsewhere. -/
  plain : v ≠ ascii "metadata"
  /-- It is not read as an error. -/
  readable : isErr v = false

variable {b : Bytes} {master : Master} {kvs s : Tablet} {t : FileTree ItemName Bytes}
  {p q : List ItemName} {m n : ItemName}

section CanHold

variable {R : Row}

theorem CanHold.item_eq_none (h : CanHold R (pathOf (p ++ [n]))) (ht : Represents R t) :
    t.item (p ++ [n]) = none := by
  by_contra hne
  exact h.free ((ht.live_iff (by simp)).mpr hne)

theorem CanHold.canCreate (h : CanHold R (pathOf (p ++ [n]))) (ht : Represents R t)
    (hp : t.item p = some .folder) : t.CanCreate p n := ⟨hp, h.item_eq_none ht⟩

theorem CanHold.ne_root (h : CanHold R (pathOf (p ++ [n]))) : p ++ [n] ≠ [rootName] := fun heq =>
  h.plain (pathOf_eq_metadata.mpr heq)

end CanHold

/-! ### Listings -/

namespace Represents

/-- The listing of a folder can be read. -/
theorem not_isErr {R : Row} (h : Represents R t) (hp : t.item p = some .folder) {w : Bytes}
    (hw : R (metaCol (pathOf p)) = some w) : isErr w = false :=
  (h.listsChildren hp).not_isErr (isFolderPath_pathOf p) h.wellFormed.names hw

/-- A name alone is on the listing of the root only. -/
theorem notMem_listing {R : Row} (h : Represents R t) (hp : t.item p = some .folder) {w : Bytes}
    (hw : R (metaCol (pathOf p)) = some w) {name : Bytes} (hslash : 47 ∉ name) (hne : name ≠ [])
    (hroot : p = [] → ¬Live R name) : name ∉ splitStringStorage w := by
  intro hmem
  obtain ⟨m, heq, hm⟩ := ((h.listings p hp).mem_iff name).mp (mem_entriesOf.mpr ⟨hne, w, hw, hmem⟩)
  rcases List.eq_nil_or_concat p with rfl | ⟨p', k, hp'⟩
  · refine hroot rfl ?_
    rw [heq]
    exact (h.live_iff (by simp)).mpr hm
  · have hpath : IsPath (pathOf p) := isPath_pathOf (by rw [hp']; simp)
    rw [heq, pathOf_concat, hpath.inFolder_eq] at hslash
    exact hslash (List.mem_append_right _ List.mem_cons_self)

/-- **Looking at a folder** that is there changes no item. -/
theorem webStorageList (h : Represents (kvs.row b) t) (hup : master.Up)
    (hp : t.item p = some .folder) :
    Represents (((webStorageList b (pathOf p)).run (Call.exec master) kvs).2.row b) t := by
  rw [row_webStorageList hup]
  split_ifs with herr
  · -- there was no listing, and now there is an empty one
    have hnone : kvs.row b (metaCol (pathOf p)) = none := by
      rcases hw : kvs.row b (metaCol (pathOf p)) with _ | w
      · rfl
      · rw [Tablet.text_of_row hw, h.not_isErr hp hw] at herr
        exact absurd herr (by decide)
    refine h.of_changes (T := fun _ => False) (fun q _ => rfl) (fun q _ _ c _ hlist => ?_)
      (fun q _ hT => hT.elim) (fun f hf => ?_) (fun q _ hT => hT.elim) h.root
    · exact Function.update_of_ne (hlist p hp) ..
    · have hentries : entriesOf ((kvs.row b).reset (pathOf p)) (pathOf f) =
          entriesOf (kvs.row b) (pathOf f) := by
        by_cases hfp : f = p
        · rw [hfp, Row.reset, entriesOf_of_some (Function.update_self ..), entriesOf, hnone]
          rfl
        · exact entriesOf_congr (Function.update_of_ne
            (fun heq => hfp (pathOf_injective (metaCol_inj heq))) ..)
      rw [hentries]
      exact h.listings f hf
  · exact h

end Represents

/-! ### The chunks of an upload -/

/-- What the loop over the chunks leaves in the row: the pieces under the names from `i`
on, and everything that is no column of the path as it was. -/
theorem row_storeChunks {path : Bytes} {rounds i : ℕ} {rest : Bytes} {t : Tablet}
    (h : (storeChunks b path rounds i rest).run (Call.exec master) kvs = (.ok (), t)) :
    ((List.range' i (pieces rounds rest).length).map fun j => t.row b (contentCol path j)) =
        (pieces rounds rest).map some ∧
      (∀ j < i, t.row b (contentCol path j) = kvs.row b (contentCol path j)) ∧
      ∀ c, ¬ColumnOf path c → t.row b c = kvs.row b c := by
  induction rounds generalizing i rest kvs with
  | zero =>
    obtain ⟨-, rfl⟩ := Prod.mk.inj h
    exact ⟨rfl, fun _ _ => rfl, fun _ _ => rfl⟩
  | succ rounds ih =>
    rw [storeChunks] at h
    by_cases hnil : rest = []
    · rw [if_pos hnil] at h
      obtain ⟨-, rfl⟩ := Prod.mk.inj h
      rw [pieces, if_pos hnil]
      exact ⟨rfl, fun _ _ => rfl, fun _ _ => rfl⟩
    · rw [if_neg hnil, run_Get_bind, run_Put_bind, run_Put_bind] at h
      obtain ⟨hpieces, hbefore, houtside⟩ := ih h
      have hmeta : ∀ j, contentCol path j ≠ path ++ ascii "-metadata" := fun j heq =>
        not_isContent_metadata path (heq ▸ isContent_append (chunkName path j))
      have hrow : ∀ c, c ≠ contentCol path i → c ≠ path ++ ascii "-metadata" →
          ((kvs.put b (path ++ ascii "-metadata") (withChunk (kvs.text b
            (path ++ ascii "-metadata")) (chunkName path i))).put b (contentCol path i)
              (rest.take chunkSize)).row b c = kvs.row b c := by
        intro c hc hc'
        rw [Tablet.row_put, Function.update_of_ne hc, Tablet.row_put, Function.update_of_ne hc']
      refine ⟨?_, fun j hj => ?_, fun c hc => ?_⟩
      · have hfirst : t.row b (contentCol path i) = some (rest.take chunkSize) := by
          refine (hbefore i (Nat.lt_succ_self i)).trans ?_
          exact (congrFun (Tablet.row_put _) _).trans (Function.update_self ..)
        rw [pieces_cons hnil, List.length_cons, List.range'_succ, List.map_cons, hpieces, hfirst]
        rfl
      · refine (hbefore j (Nat.lt_succ_of_lt hj)).trans (hrow _ (fun heq => ?_) (hmeta j))
        exact absurd (contentCol_inj heq) (Nat.ne_of_lt hj)
      · refine (houtside c hc).trans (hrow c ?_ ?_)
        · rintro rfl
          exact hc (columnOf_contentCol path i)
        · rintro rfl
          exact hc (columnOf_metadata path)

/-- The chunks of a file, when the pieces are kept under the names that are on its list. -/
theorem chunks_of_pieces {R : Row} {v : Bytes} {ps : List Bytes} (hv : 44 ∉ v)
    (hlist : R (v ++ ascii "-metadata") = some (joinStorage (chunkNames v ps.length)))
    (hne : ps ≠ [])
    (hpieces : ((List.range' 1 ps.length).map fun j => R (contentCol v j)) = ps.map some) :
    Chunks R v ps.length ∧ bytesOf R v = ps.flatten := by
  have hmap : ((List.range ps.length).map fun i => R (contentCol v (i + 1))) = ps.map some := by
    rw [← hpieces, List.range'_eq_map_range, List.map_map]
    exact List.map_congr_left fun i _ => congrArg (fun j => R (contentCol v j)) (Nat.add_comm i 1)
  have hch : Chunks R v ps.length := by
    refine ⟨List.length_pos_iff.mpr hne, hlist, fun chunk hchunk => ?_⟩
    obtain ⟨i, hi, rfl⟩ := mem_chunkNames.mp hchunk
    have hmem : R (contentCol v (i + 1)) ∈ ps.map some := by
      rw [← hmap]
      exact List.mem_map_of_mem (List.mem_range.mpr hi)
    obtain ⟨piece, -, hpiece⟩ := List.mem_map.mp hmem
    rw [← contentCol, ← hpiece]
    simp
  refine ⟨hch, ?_⟩
  have hbytes := congrArg (List.map fun x : Option Bytes => x.getD []) hmap
  rw [List.map_map, List.map_map] at hbytes
  rw [hch.bytesOf_eq hv]
  exact congrArg List.flatten (hbytes.trans (List.map_id ps))

/-- **A file that was stored** where there was no list: its marker and its chunks, which are
the pieces of the data, and an entry on the listing. -/
theorem shows_storeUpload {folder n fname data : Bytes} {a : Answer} (hfolder : IsFolderPath folder)
    (hn : isValidName n = true) (hhold : CanHold (kvs.row b) (inFolder folder n))
    (hnone : kvs.row b (inFolder folder n ++ ascii "-metadata") = none) (hdata : data ≠ [])
    (hlen : data.length < 2 ^ 31)
    (hphrase : SaysNotFound (inFolder folder n) → data.length ≤ chunkSize)
    (h : (storeUpload b folder fname (inFolder folder n) data).run (Call.exec master) kvs =
      (.ok a, s)) :
    Shows (s.row b) (inFolder folder n) (some (.file data)) ∧
      (∀ c, ¬ColumnOf (inFolder folder n) c → c ≠ metaCol folder → s.row b c = kvs.row b c) := by
  have hpath := IsPath.inFolder hfolder hn
  obtain ⟨-, hmarker, -, -⟩ := row_storeUpload hfolder hn hhold.plain h
  have hcol : ¬ColumnOf (inFolder folder n) (metaCol folder) := by
    intro hcol
    rcases columnOf_metaCol hfolder hpath hcol with ⟨-, heq⟩ | ⟨-, heq⟩
    · exact inFolder_ne_folder (isValidName_ne_nil hn) heq
    · exact hhold.plain heq
  generalize hv : inFolder folder n = v at *
  have hpart := storedPart_of_lt hlen
  obtain ⟨t, ht, hlist, -, -⟩ := @run_storeChunks_pieces master (kvs.put b v kvFile) b v
    (storedPart data).length 1 (storedPart data)
  obtain ⟨hpieces, -, houtside⟩ := row_storeChunks ht
  rw [storeUpload, run_Put_bind, Prog.run_bind_of_ok _ ht, run_Get_bind, run_CPut_bind] at h
  obtain ⟨-, rfl⟩ := Prod.mk.inj h
  rw [hpart] at hlist hpieces
  -- the listing of the folder is none of the columns of the file
  have hsame : ∀ c, c ≠ metaCol folder → (Call.exec master (.update (.cput b (metaCol folder)
      (t.text b (metaCol folder)) (withUpload (t.text b (metaCol folder)) fname v))) t).2.row b c =
        t.row b c := by
    intro c hc
    rw [row_cput_text, Function.update_of_ne hc]
  obtain ⟨m, hm⟩ : ∃ m, (pieces data.length data).length = m + 1 := by
    refine Nat.exists_eq_succ_of_ne_zero fun h0 => hdata ?_
    rw [← flatten_pieces (le_refl data.length), List.length_eq_zero_iff.mp h0, List.flatten_nil]
  have hone : SaysNotFound v → m = 0 := by
    intro hp
    have htwo := two_le_length_pieces (le_refl data.length)
    have hshort := hphrase hp
    omega
  have hnames : (List.range' 1 (m + 1)).map (chunkName v) = chunkNames v (m + 1) := by
    rw [chunkNames, List.range'_eq_map_range, List.map_map]
    exact List.map_congr_left fun i _ => congrArg (chunkName v) (Nat.add_comm 1 i)
  have hbefore : SaysNotFound ((kvs.put b v kvFile).text b (v ++ ascii "-metadata")) := by
    rw [saysNotFound_text_iff]
    intro w hw
    rw [Tablet.row_put, Function.update_of_ne fun heq => ?_, hnone] at hw
    · exact absurd hw (by simp)
    · exact absurd (List.append_right_eq_self.mp heq) (by decide)
  have hrow : t.row b (v ++ ascii "-metadata") = some (joinStorage (chunkNames v (m + 1))) := by
    have hsplit := @split_stored v ((kvs.put b v kvFile).text b (v ++ ascii "-metadata"))
      hpath.notMem_comma m hone
    rw [← hm, ← hlist, if_pos hbefore, List.nil_append, hm, hnames] at hsplit
    have htext : t.text b (v ++ ascii "-metadata") = joinStorage (chunkNames v (m + 1)) := by
      rw [← hsplit]
      exact (List.intercalate_splitOn 44).symm
    refine (Tablet.text_eq_iff ?_).mp htext
    exact (isErr_chunkNames hpath.notMem_comma (Nat.succ_pos m)).trans hhold.readable
  have hstored := chunks_of_pieces hpath.notMem_comma (by rwa [hm])
    (fun hnil => by simp [hnil] at hm) hpieces
  have hcols : ∀ c, ColumnOf v c → c ≠ metaCol folder := by
    rintro c hc rfl
    exact hcol hc
  refine ⟨⟨hmarker, ⟨_, hstored.1.congr fun c hc => hsame c (hcols c hc)⟩, ?_, hdata⟩,
    fun c hc hlisting => ?_⟩
  · rw [hstored.1.bytesOf_congr hpath.notMem_comma fun c hc => hsame c (hcols c hc), hstored.2,
      flatten_pieces le_rfl]
  · have hne : c ≠ v := by
      rintro rfl
      exact hc (ColumnOf.refl c)
    rw [hsame c hlisting, houtside c hc, Tablet.row_put, Function.update_of_ne hne]

/-! ### Something new -/

/-- An entry that is put on a listing as an upload does. -/
theorem entriesOf_withUpload {R R' : Row} {folder w name path : Bytes} (hcomma : 44 ∉ path)
    (hne : path ≠ []) (hw : R (metaCol folder) = some w) (hname : name ∉ splitStringStorage w)
    (h : R' (metaCol folder) = some (withUpload w name path)) :
    entriesOf R' folder = entriesOf R folder ++ [path] := by
  refine entriesOf_gained hcomma hne ?_
  rw [h, hw, withUpload, gained, if_neg hname]

namespace Represents

/-- **A folder is created.** -/
theorem webStorageCreateFolder (h : Represents (kvs.row b) t) (hp : t.item p = some .folder)
    {w : Bytes} (hw : kvs.row b (metaCol (pathOf p)) = some w)
    (hhold : CanHold (kvs.row b) (pathOf (p ++ [n])))
    (hrow : s.row b = Function.update (Function.update
      ((kvs.row b).listed (pathOf p) (kvs.text b (metaCol (pathOf p))) n.1 (pathOf (p ++ [n])))
      (pathOf (p ++ [n])) (some kvFolder)) (pathOf (p ++ [n]) ++ ascii "-metadata") (some [])) :
    Represents (s.row b) (t.create p n .folder (hhold.canCreate h hp)) := by
  have hpath : IsPath (pathOf (p ++ [n])) := isPath_pathOf (by simp)
  have hmarker : pathOf (p ++ [n]) ≠ pathOf (p ++ [n]) ++ ascii "-metadata" := fun heq =>
    absurd (List.append_right_eq_self.mp heq.symm) (by decide)
  have hlisting : metaCol (pathOf p) ≠ pathOf (p ++ [n]) ++ ascii "-metadata" := by
    refine metaCol_ne_metadata fun heq => ?_
    rw [pathOf_concat] at heq
    exact inFolder_ne_folder (isValidName_ne_nil n.2) heq.symm
  have hlisting' : metaCol (pathOf p) ≠ pathOf (p ++ [n]) :=
    metaCol_ne hpath.notMem_dash fun _ => hhold.plain
  have hname : n.1 ∉ splitStringStorage w := by
    refine h.notMem_listing hp hw (notMem_of_isValidName n.2) (isValidName_ne_nil n.2) ?_
    rintro rfl
    exact hhold.free
  refine h.create _ hhold.ne_root hhold.readable ?_ (fun _ => ?_) ?_ fun c hc hlist => ?_
  · rw [Shows, hrow, Function.update_of_ne hmarker, Function.update_self]
  · rw [entriesOf_of_some (v := [])]
    · rfl
    · rw [hpath.metaCol_eq, hrow, Function.update_self]
  · refine entriesOf_withUpload hpath.notMem_comma hpath.ne_nil hw hname ?_
    rw [hrow, Function.update_of_ne hlisting, Function.update_of_ne hlisting',
      Row.listed_metaCol (isValidName_ne_nil n.2) fun _ => ?_, Tablet.text_of_row hw]
    rw [hw, Tablet.text_of_row hw]
  · have hne : c ≠ pathOf (p ++ [n]) := fun heq => hc (heq ▸ ColumnOf.refl _)
    have hne' : c ≠ pathOf (p ++ [n]) ++ ascii "-metadata" := fun heq =>
      hc (heq ▸ columnOf_metadata _)
    rw [hrow, Function.update_of_ne hne', Function.update_of_ne hne, Row.listed_of_ne hlist]

/-- **A file is stored.** -/
theorem storeUpload (h : Represents (kvs.row b) t) (hp : t.item p = some .folder) {w : Bytes}
    (hw : kvs.row b (metaCol (pathOf p)) = some w)
    (hhold : CanHold (kvs.row b) (pathOf (p ++ [n]))) {data : Bytes} (hdata : data ≠ [])
    (hlen : data.length < 2 ^ 31)
    (hphrase : SaysNotFound (pathOf (p ++ [n])) → data.length ≤ chunkSize) {fname : Bytes}
    (hslash : 47 ∉ fname) (hne : fname ≠ []) (hroot : p = [] → ¬Live (kvs.row b) fname)
    {a : Answer} (hrun : (PennCloud.storeUpload b (pathOf p) fname (pathOf (p ++ [n])) data).run
      (Call.exec master) kvs = (.ok a, s)) :
    Represents (s.row b) (t.create p n (.file data) (hhold.canCreate h hp)) := by
  have hpath : IsPath (pathOf (p ++ [n])) := isPath_pathOf (by simp)
  have hnone := h.items (p ++ [n]) (by simp)
  rw [hhold.item_eq_none h] at hnone
  have hfolder := isFolderPath_pathOf p
  rw [pathOf_concat] at hrun
  obtain ⟨-, -, hlist, -⟩ := row_storeUpload hfolder n.2 (pathOf_concat p n ▸ hhold.plain) hrun
  obtain ⟨hshows, houtside⟩ := shows_storeUpload hfolder n.2 (pathOf_concat p n ▸ hhold)
    (pathOf_concat p n ▸ hnone.2) hdata hlen (pathOf_concat p n ▸ hphrase) hrun
  rw [← pathOf_concat] at hlist hshows houtside
  refine h.create _ hhold.ne_root hhold.readable hshows (fun hx => absurd hx (by simp)) ?_ houtside
  refine entriesOf_withUpload hpath.notMem_comma hpath.ne_nil hw
    (h.notMem_listing hp hw hslash hne hroot) ?_
  rw [hlist, hw]
  rfl

end Represents

/-! ### A file elsewhere -/

/-- The listings of a tree in which a leaf was moved: its old path has left the one it was
on, and its new path is on the one of the target. -/
theorem Lists.moved {es es' : List Bytes} {f : List ItemName} (h : Lists es t f)
    (hm : t.CanMove (p ++ [m]) q n) (hleaf : ∀ u, u ≠ [] → t.item (p ++ [m] ++ u) = none)
    (hnodup : es'.Nodup) (hmem : ∀ e, e ∈ es' ↔
      (e ∈ es ∧ e ≠ pathOf (p ++ [m])) ∨ (f = q ∧ e = pathOf (q ++ [n]))) :
    Lists es' (t.move (p ++ [m]) q n hm) f := by
  refine ⟨hnodup, fun e => (hmem e).trans ?_⟩
  constructor
  · rintro (⟨he, hne⟩ | ⟨rfl, rfl⟩)
    · obtain ⟨k, rfl, hk⟩ := (h.mem_iff e).mp he
      refine ⟨k, rfl, ?_⟩
      rw [FileTree.item_move_leaf hm hleaf]
      split_ifs with h1 h2
      · exact hm.live
      · exact absurd (congrArg pathOf h2) hne
      · exact hk
    · refine ⟨n, rfl, ?_⟩
      rw [FileTree.item_move_leaf hm hleaf, if_pos rfl]
      exact hm.live
  · rintro ⟨k, rfl, hk⟩
    rw [FileTree.item_move_leaf hm hleaf] at hk
    split_ifs at hk with h1 h2
    · obtain ⟨rfl, -⟩ := List.append_inj' h1 rfl
      exact Or.inr ⟨rfl, congrArg pathOf h1⟩
    · exact absurd rfl hk
    · exact Or.inl ⟨(h.mem_iff _).mpr ⟨k, rfl, hk⟩, fun heq => h2 (pathOf_injective heq)⟩

/-- A listing on which one entry was replaced. -/
theorem Lists.replaced {es : List Bytes} (h : Lists es t p) (hm : t.CanMove (p ++ [m]) p n)
    (hleaf : ∀ u, u ≠ [] → t.item (p ++ [m] ++ u) = none) :
    Lists (replaceEntry (pathOf (p ++ [m])) (pathOf (p ++ [n])) es)
      (t.move (p ++ [m]) p n hm) p := by
  have hself : pathOf (p ++ [m]) ∈ es := (h.mem_iff _).mpr ⟨m, rfl, hm.live⟩
  have hnew := h.notMem hm.free
  refine h.moved hm hleaf ?_ fun e => ?_
  · refine h.nodup.map_on fun e he e' he' heq => ?_
    split_ifs at heq with h1 h2 h2
    · rw [h1, h2]
    · exact absurd (heq ▸ he') hnew
    · exact absurd (heq ▸ he) hnew
    · exact heq
  · rw [replaceEntry, List.mem_map]
    constructor
    · rintro ⟨e', he', rfl⟩
      split_ifs with heq
      · exact Or.inr ⟨rfl, rfl⟩
      · exact Or.inl ⟨he', heq⟩
    · rintro (⟨he, hne⟩ | ⟨-, rfl⟩)
      · exact ⟨e, he, if_neg hne⟩
      · exact ⟨_, hself, if_pos rfl⟩

/-- A listing on which neither of the two paths is. -/
theorem Lists.unmoved {es : List Bytes} {f : List ItemName} (h : Lists es t f)
    (hm : t.CanMove (p ++ [m]) q n) (hleaf : ∀ u, u ≠ [] → t.item (p ++ [m] ++ u) = none)
    (hfp : f ≠ p) (hfq : f ≠ q) : Lists es (t.move (p ++ [m]) q n hm) f := by
  refine h.moved hm hleaf h.nodup fun e => ⟨fun he => Or.inl ⟨he, ?_⟩, fun he => ?_⟩
  · rintro rfl
    obtain ⟨j, heq, -⟩ := (h.mem_iff _).mp he
    exact hfp (List.append_inj' (pathOf_injective heq) rfl).1.symm
  · exact he.elim And.left fun hand => absurd hand.1 hfq

/-- What a leaf needs to go to a new path. -/
theorem CanHold.canMove (h : CanHold (kvs.row b) (pathOf (q ++ [n])))
    (ht : Represents (kvs.row b) t) (hq : t.item q = some .folder) (hne : p ++ [m] ≠ q)
    (hlive : t.item (p ++ [m]) ≠ none)
    (hleaf : ∀ u, u ≠ [] → t.item (p ++ [m] ++ u) = none) : t.CanMove (p ++ [m]) q n := by
  refine ⟨hlive, by simp, hq, h.item_eq_none ht, ?_⟩
  rintro ⟨u, rfl⟩
  have hu : u ≠ [] := fun hnil => hne (by rw [hnil, List.append_nil])
  rw [hleaf u hu] at hq
  exact absurd hq (by simp)

/-- A file is a leaf, -/
theorem leaf_of_file {d : Bytes} (hfile : t.item (p ++ [m]) = some (.file d)) :
    ∀ u, u ≠ [] → t.item (p ++ [m] ++ u) = none := fun u hu =>
  t.item_append_eq_none hu (by simp [hfile])

/-- and no folder. -/
theorem ne_of_file {d : Bytes} (hfile : t.item (p ++ [m]) = some (.file d))
    (hq : t.item q = some .folder) : p ++ [m] ≠ q := by
  rintro rfl
  rw [hfile] at hq
  exact absurd hq (by simp)

namespace Represents

/-- **A file is moved** to the path that was found for it. -/
theorem webStorageMoveFile (h : Represents (kvs.row b) t) {d : Bytes}
    (hfile : t.item (p ++ [m]) = some (.file d)) (hq : t.item q = some .folder)
    (hlist : kvs.row b (metaCol (pathOf q)) ≠ none)
    (hhold : CanHold (kvs.row b) (pathOf (q ++ [n]))) {u : Tablet}
    (hmove : (relocateFile b (pathOf (p ++ [m])) (pathOf (q ++ [n]))).run (Call.exec master) kvs =
      (.ok (), u))
    (hrun : (removeEntry b (pathOf p) (pathOf (p ++ [m]))).run (Call.exec master)
      (u.put b (metaCol (pathOf q)) (joinStorage (splitStringStorage
        (u.text b (metaCol (pathOf q))) ++ [pathOf (q ++ [n])]))) = (.ok (), s))
    (hm : t.CanMove (p ++ [m]) q n) :
    Represents (s.row b) (t.move (p ++ [m]) q n hm) := by
  have hgood := h.wellFormed
  have hold : IsPath (pathOf (p ++ [m])) := isPath_pathOf (by simp)
  have hnew : IsPath (pathOf (q ++ [n])) := isPath_pathOf (by simp)
  have hshows := h.items (p ++ [m]) (by simp)
  rw [hfile] at hshows
  obtain ⟨hmark, ⟨k, hch⟩, hbytes, hdata⟩ := hshows
  have hne : pathOf (p ++ [m]) ≠ pathOf (q ++ [n]) := fun heq => hhold.free (heq ▸ Or.inl hmark)
  obtain ⟨u', hu', hmoved⟩ := @run_relocateFile master kvs b _ _ k hold hnew hne
    (hgood.names _ hold (Or.inl hmark)) hch
  obtain ⟨-, rfl⟩ := Prod.mk.inj (hu'.symm.trans hmove)
  have hlisted := relisted_of_run hnew.notMem_comma hnew.ne_nil hrun
  have hleaf := leaf_of_file hfile
  have hpm : pathOf (p ++ [m]) = inFolder (pathOf p) m.1 := pathOf_concat p m
  have hwhole := fileMoved_of_relocated (fun x hx hfx => hgood.listings x (Or.inr hx) (Or.inr hfx))
    hgood.files h.not_live_metadata (isFolderPath_pathOf p) m.2 (hpm ▸ hmark)
    (isFolderPath_pathOf q) (h.existing_iff.mpr hq) hlist hnew hhold.free hhold.plain (hpm ▸ hch)
    (hpm ▸ hmoved) (hpm ▸ hlisted)
  rw [← hpm] at hwhole
  have hbefore : beforeLast 47 (pathOf (p ++ [m])) = pathOf p := by
    rw [hpm, beforeLast_inFolder m.2]
  refine h.moveLeaf hm hfile hleaf hhold.ne_root hhold.readable ⟨?_, hwhole.gone.2.1⟩
    ⟨hwhole.file, ⟨k, hwhole.chunks⟩, hwhole.bytes.trans hbytes, hdata⟩
    (fun hx => absurd hx (by simp)) (fun f hf _ => ?_) fun f hf hfold hfnew c hc hcp hcq => ?_
  · rintro (hlive | hlive) <;> exact absurd (hwhole.gone.1.symm.trans hlive) (by simp)
  · have hlists := h.listings f hf
    have hpresent : pathOf f = beforeLast 47 (pathOf (p ++ [m])) → pathOf f = [] →
        kvs.row b (metaCol (pathOf f)) ≠ none := by
      intro hfp _
      rw [hbefore] at hfp
      obtain rfl := pathOf_injective hfp
      obtain ⟨-, w, hw, -⟩ := mem_entriesOf.mp ((hlists.mem_iff _).mpr ⟨m, rfl, by simp [hfile]⟩)
      simp [hw]
    have hentries := hwhole.listings (pathOf f) (isFolderPath_pathOf f) (h.existing_iff.mpr hf)
      hpresent
    rw [hbefore] at hentries
    have hnew' : pathOf (q ++ [n]) ∉ entriesOf (kvs.row b) (pathOf f) := by
      intro hmem
      obtain ⟨j, heq, hj⟩ := (hlists.mem_iff _).mp hmem
      exact hj (pathOf_injective heq ▸ hm.free)
    refine hlists.moved hm hleaf ?_ fun e => ?_
    · rw [hentries]
      refine List.nodup_append.mpr ⟨hlists.nodup.filter _, by split_ifs <;> simp, ?_⟩
      rintro e he e' he' rfl
      split_ifs at he'
      · rw [List.mem_singleton.mp he'] at he
        exact hnew' (List.mem_filter.mp he).1
      · exact absurd he' List.not_mem_nil
    · rw [hentries, List.mem_append, List.mem_filter, decide_eq_true_iff]
      refine or_congr (and_congr_right fun he => ?_) ?_
      · refine ⟨fun hno heq => ?_, fun hne hand => hne hand.2⟩
        subst heq
        obtain ⟨j, heq, -⟩ := (hlists.mem_iff _).mp he
        obtain ⟨rfl, -⟩ := List.append_inj' (pathOf_injective heq) rfl
        exact hno ⟨rfl, rfl⟩
      · by_cases hfq : f = q
        · simp [hfq]
        · simp [hfq, pathOf_injective.eq_iff]
  · exact (hlisted.outside c hcp hcq).trans (hmoved.outside c
      (not_columnOf_pathOf (by simp) hf hfold hc) (not_columnOf_pathOf (by simp) hf hfnew hc))

end Represents

/-- The entries of a listing on which one was replaced. -/
theorem entriesOf_replaceEntry {R R' : Row} {folder w old new : Bytes}
    (hw : R (metaCol folder) = some w) (hold : old ≠ []) (hne : new ≠ []) (hcomma : 44 ∉ new)
    (h : R' (metaCol folder) = some (joinStorage (replaceEntry old new (splitStringStorage w)))) :
    entriesOf R' folder = replaceEntry old new (entriesOf R folder) := by
  have hcommas : ∀ e ∈ replaceEntry old new (splitStringStorage w), 44 ∉ e := by
    intro e he
    obtain ⟨e', he', rfl⟩ := List.mem_map.mp he
    split_ifs
    · exact hcomma
    · exact notMem_comma_of_mem he'
  have hsplit : splitStringStorage (joinStorage (replaceEntry old new (splitStringStorage w))) =
      replaceEntry old new (splitStringStorage w) := by
    refine List.splitOn_intercalate 44 hcommas ?_
    simpa [replaceEntry] using splitStringStorage_ne_nil w
  rw [entriesOf_of_some h, hsplit, entriesOf_of_some hw, replaceEntry, replaceEntry,
    List.filter_map]
  refine congrArg (List.map _) (List.filter_congr fun e _ => ?_)
  rw [Function.comp_apply, decide_eq_decide]
  split_ifs with heq
  · exact iff_of_true hne (heq ▸ hold)
  · exact Iff.rfl

namespace Represents

/-- **A file is renamed** in its folder. -/
theorem webStorageRenameFile (h : Represents (kvs.row b) t) {d : Bytes}
    (hfile : t.item (p ++ [m]) = some (.file d)) (hhold : CanHold (kvs.row b) (pathOf (p ++ [n])))
    {u : Tablet} (hmove : (relocateFile b (pathOf (p ++ [m])) (pathOf (p ++ [n]))).run
      (Call.exec master) kvs = (.ok (), u))
    (hrow : s.row b = Function.update (u.row b) (metaCol (pathOf p)) (some (joinStorage
      (replaceEntry (pathOf (p ++ [m])) (pathOf (p ++ [n])) (splitStringStorage
        (u.text b (metaCol (pathOf p)))))))) (hm : t.CanMove (p ++ [m]) p n) :
    Represents (s.row b) (t.move (p ++ [m]) p n hm) := by
  have hgood := h.wellFormed
  have hleaf := leaf_of_file hfile
  have hold : IsPath (pathOf (p ++ [m])) := isPath_pathOf (by simp)
  have hnew : IsPath (pathOf (p ++ [n])) := isPath_pathOf (by simp)
  have hshows := h.items (p ++ [m]) (by simp)
  rw [hfile] at hshows
  obtain ⟨hmark, ⟨k, hch⟩, hbytes, hdata⟩ := hshows
  have hne : pathOf (p ++ [m]) ≠ pathOf (p ++ [n]) := fun heq => hhold.free (heq ▸ Or.inl hmark)
  obtain ⟨u', hu', hmoved⟩ := @run_relocateFile master kvs b _ _ k hold hnew hne
    (hgood.names _ hold (Or.inl hmark)) hch
  obtain ⟨-, rfl⟩ := Prod.mk.inj (hu'.symm.trans hmove)
  have hroot : p ++ [m] ≠ [rootName] := fun heq => hm.live (heq ▸ h.root)
  -- the listing of a folder is no column of the two paths
  have hlisting : ∀ f, t.item f = some .folder →
      u'.row b (metaCol (pathOf f)) = kvs.row b (metaCol (pathOf f)) := by
    intro f hf
    refine hmoved.outside _
      (not_columnOf_metaCol_pathOf (by simp) (ne_of_file hfile hf) hroot)
      (not_columnOf_metaCol_pathOf (by simp) (fun heq => ?_) hhold.ne_root)
    rw [← heq, hm.free] at hf
    exact absurd hf (by simp)
  have hcols : ∀ x, x = m ∨ x = n → ∀ c, ColumnOf (pathOf (p ++ [x])) c →
      s.row b c = u'.row b c := by
    rintro x hx c hc
    rw [hrow, Function.update_of_ne]
    rintro rfl
    refine not_columnOf_metaCol_pathOf (by simp) (by simp) ?_ hc
    rcases hx with rfl | rfl
    · exact hroot
    · exact hhold.ne_root
  have hchunks := hmoved.chunks hch
  refine h.moveLeaf hm hfile hleaf hhold.ne_root hhold.readable ⟨?_, ?_⟩ ⟨?_, ⟨k, ?_⟩, ?_, hdata⟩
    (fun hx => absurd hx (by simp)) (fun f hf _ => ?_) fun f hf hfold hfnew c hc hcp _ => ?_
  · rw [Live, hcols m (Or.inl rfl) _ (ColumnOf.refl _), hmoved.gone_marker]
    simp
  · rw [hcols m (Or.inl rfl) _ (columnOf_metadata _), hmoved.gone_list]
  · rw [hcols n (Or.inr rfl) _ (ColumnOf.refl _), hmoved.marker]
  · exact hchunks.congr (hcols n (Or.inr rfl))
  · rw [hchunks.bytesOf_congr hnew.notMem_comma (hcols n (Or.inr rfl)),
      hmoved.bytes hch hold.notMem_comma hnew.notMem_comma, hbytes]
  · have hlists := h.listings f hf
    by_cases hfp : f = p
    · subst hfp
      obtain ⟨-, w, hw, -⟩ := mem_entriesOf.mp ((hlists.mem_iff _).mpr ⟨m, rfl, hm.live⟩)
      have hw' := (hlisting f hf).trans hw
      have hentries : entriesOf (s.row b) (pathOf f) = replaceEntry (pathOf (f ++ [m]))
          (pathOf (f ++ [n])) (entriesOf (u'.row b) (pathOf f)) := by
        refine entriesOf_replaceEntry hw' hold.ne_nil hnew.ne_nil hnew.notMem_comma ?_
        rw [hrow, Function.update_self, Tablet.text_of_row hw']
      rw [hentries, entriesOf_congr (hlisting f hf)]
      exact hlists.replaced hm hleaf
    · have hother : s.row b (metaCol (pathOf f)) = kvs.row b (metaCol (pathOf f)) := by
        rw [hrow, Function.update_of_ne fun heq => hfp (pathOf_injective (metaCol_inj heq)),
          hlisting f hf]
      rw [entriesOf_congr hother]
      exact hlists.unmoved hm hleaf hfp hfp
  · rw [hrow, Function.update_of_ne hcp, hmoved.outside c
      (not_columnOf_pathOf (by simp) hf hfold hc) (not_columnOf_pathOf (by simp) hf hfnew hc)]

end Represents

/-! ### A subtree less -/

section Beside

variable {R : Row} {c₀ : Bytes} {o : Option Bytes} {x : Bytes}

theorem listRead_update (h : ¬ColumnOf x c₀) :
    listRead (Function.update R c₀ o) x = listRead R x := by
  have hne : x ++ ascii "-metadata" ≠ c₀ := fun heq => h (heq ▸ columnOf_metadata x)
  rw [listRead, listRead, Function.update_of_ne hne]

theorem closed_update (h : ¬ColumnOf x c₀) :
    closed (Function.update R c₀ o) x = Function.update (closed R x) c₀ o := by
  have hne : c₀ ≠ x := fun heq => h (heq ▸ ColumnOf.refl _)
  have hne' : c₀ ≠ x ++ ascii "-metadata" := fun heq => h (heq ▸ columnOf_metadata x)
  rw [closed, closed, Function.update_comm hne, Function.update_comm hne']

theorem without_update {cols : List Bytes} (h : c₀ ∉ cols) :
    Row.without (Function.update R c₀ o) cols = Function.update (R.without cols) c₀ o := by
  funext c
  by_cases hc : c = c₀
  · rw [hc, Row.without_of_notMem h, Function.update_self, Function.update_self]
  · rw [Function.update_of_ne hc]
    by_cases hmem : c ∈ cols
    · rw [Row.without_of_mem hmem, Row.without_of_mem hmem]
    · rw [Row.without_of_notMem hmem, Row.without_of_notMem hmem, Function.update_of_ne hc]

/-- **A subtree is deleted** beside a column that is none of its items'. -/
theorem Findable.walk_beside {a : Bytes} (h : Findable R) (ha : IsPath a) (hlive : Live R a)
    (hrow : kvs.row b = Function.update R c₀ o) (hblank : ¬IsBlank c₀)
    (hc₀ : ∀ x ∈ Found (childrenOf R) a, ¬ColumnOf x c₀) (hfin : {c | R c ≠ none}.Finite)
    (master : Master) : ∃ t : Tablet, Walk (deleteLook master b) (fun _ _ => True) [a] kvs t ∧
      t.row b = Function.update (cleared R (Found (childrenOf R) a)) c₀ o := by
  classical
  have hown := h.ownColumns ha hlive
  have hno : ∀ x ∈ Found (childrenOf R) a, ¬(x = [] ∧ Blank R) := fun x hx hand =>
    (path_of_found ha hx).ne_nil hand.1
  have hlook : LooksThrough (deleteLook master b) (childrenOf R) a (fun x => x = [] ∧ Blank R)
      (fun V s => V ⊆ Found (childrenOf R) a ∧ s.row b = Function.update (cleared R V) c₀ o) := by
    rintro V x s ⟨hV, hs⟩ hx hxV
    have hsub : insert x V ⊆ Found (childrenOf R) a := Set.insert_subset hx hV
    have hxpath := path_of_found ha hx
    have hxc := hc₀ x hx
    have hmarker : s.row b x = R x := by
      have hne : x ≠ c₀ := fun heq => hxc (heq ▸ ColumnOf.refl x)
      rw [hs, Function.update_of_ne hne,
        cleared_of_columnOf (hown.mono hV) hxpath hxV (ColumnOf.refl x)]
    have hlist : listRead (s.row b) x = listRead R x := by
      rw [hs, listRead_update hxc, listRead_cleared (hown.mono hV) hxpath hxV]
    rcases hlook : deleteLook master b x s with ⟨e | ys, t⟩
    · rw [deleteLook] at hlook
      split_ifs at hlook <;> exact absurd (Prod.mk.inj hlook).1 (by simp)
    · refine ⟨ys, t, rfl, ?_⟩
      rcases row_deleteLook hlook with ⟨hfolder, rfl, ht⟩ | ⟨hfile, rfl, ht⟩
      · rw [hmarker] at hfolder
        obtain ⟨hys, hnext, hnodup⟩ := h.listRead_folder hxpath hfolder
        rw [hlist]
        refine ⟨⟨hsub, ?_⟩, hys, hnext, hnodup _ fun y => Iff.rfl⟩
        rw [ht, hs, closed_update hxc, cleared_insert_folder (hown.mono hsub) hfolder]
      · rw [hmarker] at hfile
        refine ⟨⟨hsub, ?_⟩, fun y hy => absurd hy List.not_mem_nil, ?_, List.nodup_nil⟩
        · have hcols : fileColumns (s.row b) x = fileColumns R x := by
            rw [fileColumns, fileColumns, hlist]
          have hmem : c₀ ∉ fileColumns R x := fun hmem => by
            rw [← deletedColumns_of_file hfile] at hmem
            exact hxc (columnOf_of_mem_deletedColumns (hown.chunks x hx) hmem)
          rw [ht, hcols, hs, without_update hmem, cleared_insert_file (hown.mono hsub) hfile]
        · exact fun y hy => absurd hy.1 hfile
  have hskip : ∀ (V : Set Bytes) (x : Bytes) (s : Tablet),
      (V ⊆ Found (childrenOf R) a ∧ s.row b = Function.update (cleared R V) c₀ o) →
        (x = [] ∧ Blank R) → ∃ s' : Tablet, deleteLook master b x s = (.ok [], s') ∧
          V ⊆ Found (childrenOf R) a ∧ s'.row b = Function.update (cleared R V) c₀ o := by
    rintro V x s ⟨hV, hs⟩ ⟨rfl, hR⟩
    have hblank' : Blank (s.row b) := by
      rw [hs]
      exact Blank.update (fun c hc => cleared_of_none (hR c hc)) hblank o
    obtain ⟨s', hlook, hs'⟩ := @deleteLook_nil master b s hblank'
    exact ⟨s', hlook, hV, hs'.trans hs⟩
  obtain ⟨t, hwalk, -, ht⟩ := (visiting_start hno).exists_walk (isTree_childrenOf hlive hfin) hno
    hlook hskip ⟨Set.empty_subset _, by rw [hrow, cleared_empty]⟩
  exact ⟨t, hwalk, ht⟩

end Beside

/-- The entries of a listing without one of them. -/
theorem entriesOf_entriesBut {R R' : Row} {folder w path : Bytes} (hw : R (metaCol folder) = some w)
    (h : R' (metaCol folder) = some (joinStorage (entriesBut path w))) :
    entriesOf R' folder = (entriesOf R folder).filter fun e => e ≠ path := by
  have hfilter : (entriesOf R folder).filter (fun e => e ≠ path) =
      (entriesBut path w).filter fun e => e ≠ [] := by
    rw [entriesOf_of_some hw, entriesBut, List.filter_filter, List.filter_filter]
    exact List.filter_congr fun e _ => Bool.and_comm _ _
  rw [entriesOf_of_some h, hfilter]
  by_cases hnil : entriesBut path w = []
  · rw [hnil]
    rfl
  · exact congrArg (List.filter _) (List.splitOn_intercalate 44 (fun e => notMem_entriesBut) hnil)

/-- In a row that represents a tree everything can be found. -/
theorem Represents.findable {R : Row} (h : Represents R t) (hblank : Blank R) : Findable R := by
  have hgood := h.wellFormed
  refine ⟨fun q hq hfolder => hgood.listings q (Or.inr hq) (Or.inr hfolder), fun q hq hfile => ?_,
    hgood.names, fun _ _ _ _ _ _ => Or.inr hblank⟩
  obtain ⟨k, hch⟩ := hgood.files q hq hfile
  exact hch.listsChunks hq.notMem_comma

namespace Represents

/-- **An item is deleted**, with everything below it. -/
theorem webStorageDelete (h : Represents (kvs.row b) t) (hblank : Blank (kvs.row b))
    (hlive : t.item (p ++ [n]) ≠ none)
    (halone : ∀ w, kvs.row b (metaCol (pathOf p)) = some w → ∀ e ∈ splitStringStorage w,
      n.1 <:+: e → e = pathOf (p ++ [n])) {fuel : ℕ}
    (hrun : (deleteRec b fuel (pathOf (p ++ [n]))).run (Call.exec master)
      (kvs.put b (metaCol (pathOf p)) (joinStorage ((splitStringStorage
        (kvs.text b (metaCol (pathOf p)))).filter fun it => (cut n.1 it).isNone))) = (.ok (), s)) :
    Represents (s.row b) (t.remove (p ++ [n]) (by simp)) := by
  have hp : t.item p = some .folder := t.parent p n hlive
  have hpath : IsPath (pathOf (p ++ [n])) := isPath_pathOf (by simp)
  have hR : Live (kvs.row b) (pathOf (p ++ [n])) := (h.live_iff (by simp)).mpr hlive
  have hname : afterLast 47 (pathOf (p ++ [n])) = n.1 := by
    rw [pathOf_concat, afterLast_inFolder n.2]
  obtain ⟨-, w, hw, -⟩ := mem_entriesOf.mp (((h.listings p hp).mem_iff _).mpr ⟨n, rfl, hlive⟩)
  have hbut : (splitStringStorage w).filter (fun it => (cut n.1 it).isNone) =
      entriesBut (pathOf (p ++ [n])) w := by
    have heq := entriesWithout_eq_iff.mpr (hname ▸ halone w hw)
    rwa [entriesWithout, hname] at heq
  rw [Tablet.text_of_row hw, hbut] at hrun
  have hfindable := h.findable hblank
  -- everything found from the item is below it
  have hbelow : ∀ x ∈ Found (childrenOf (kvs.row b)) (pathOf (p ++ [n])),
      ∃ q, x = pathOf q ∧ p ++ [n] <+: q ∧ q ≠ [] ∧ t.item q ≠ none := by
    intro x hx
    obtain ⟨q, hq, rfl⟩ := (path_of_found hpath hx).exists_pathOf
    exact ⟨q, rfl, (under_pathOf_iff (by simp)).mp (under_of_found hx), hq,
      (h.live_iff hq).mp (live_of_found hR hx)⟩
  have hc₀ : ∀ x ∈ Found (childrenOf (kvs.row b)) (pathOf (p ++ [n])),
      ¬ColumnOf x (metaCol (pathOf p)) := by
    intro x hx
    obtain ⟨q, rfl, hpre, hq, hqlive⟩ := hbelow x hx
    refine not_columnOf_metaCol_pathOf hq ?_ ?_
    · rintro rfl
      simpa using hpre.length_le
    · rintro rfl
      exact hqlive h.root
  have hput : (kvs.put b (metaCol (pathOf p)) (joinStorage (entriesBut (pathOf (p ++ [n])) w))).row
      b = Function.update (kvs.row b) (metaCol (pathOf p))
        (some (joinStorage (entriesBut (pathOf (p ++ [n])) w))) := Tablet.row_put _
  obtain ⟨u, hwalk, hrow⟩ := hfindable.walk_beside hpath hR hput
    (rooted_metaCol (isFolderPath_pathOf p)).not_isBlank hc₀ (finite_row kvs b) master
  have heach : (Prog.each (deleteRec b fuel) [pathOf (p ++ [n])]).run (Call.exec master)
      (kvs.put b (metaCol (pathOf p)) (joinStorage (entriesBut (pathOf (p ++ [n])) w))) =
        (.ok (), s) := Prog.run_bind_of_ok _ hrun
  obtain rfl := ((recursion_deleteRec master b).run_iff.mp ⟨fuel, heach⟩).unique hwalk
  have hexact := hfindable.deletedExactly hpath hR
  have hsame : ∀ c, c ≠ metaCol (pathOf p) →
      s.row b c = cleared (kvs.row b) (Found (childrenOf (kvs.row b)) (pathOf (p ++ [n]))) c :=
    fun c hc => by rw [hrow, Function.update_of_ne hc]
  have hbeside : ∀ c, c ≠ metaCol (pathOf p) →
      (∀ q, p ++ [n] <+: q → t.item q ≠ none → ¬ColumnOf (pathOf q) c) →
        s.row b c = kvs.row b c := by
    intro c hc hcols
    rw [hsame c hc]
    refine hexact.outside c fun x hx => ?_
    obtain ⟨q, rfl, hpre, -, hqlive⟩ := hbelow x hx
    exact hcols q hpre hqlive
  refine h.remove hlive (fun q hpre => ?_) ?_ fun c hc hlisting => hbeside c hlisting fun q hq _ =>
    hc q hq
  · have hq : q ≠ [] := by
      rintro rfl
      simpa using hpre.length_le
    have hqp : q ≠ p := by
      rintro rfl
      simpa using hpre.length_le
    have hqroot : q ≠ [rootName] := by
      rintro rfl
      have hpre' : p ++ [n] <+: [] ++ [rootName] := hpre
      rcases List.prefix_concat_iff.mp hpre' with heq | hnil
      · exact hlive (heq ▸ h.root)
      · simpa using List.prefix_nil.mp hnil
    have hcol : ∀ c, ColumnOf (pathOf q) c → c ≠ metaCol (pathOf p) := by
      rintro c hc rfl
      exact not_columnOf_metaCol_pathOf hq hqp hqroot hc
    have hqpath := isPath_pathOf hq
    by_cases hqlive : t.item q = none
    · -- nothing was there, and nothing was touched
      have hshows := h.items q hq
      rw [hqlive] at hshows
      refine hshows.congr hqpath.notMem_comma fun c hc _ => hbeside c (hcol c hc) ?_
      intro q' hpre' hlive'
      refine not_columnOf_pathOf ?_ hq ?_ hc
      · rintro rfl
        simpa using hpre'.length_le
      · rintro rfl
        exact hlive' hqlive
    · have hfound := h.wellFormed.found hqpath ((under_pathOf_iff (by simp)).mpr hpre)
        ((h.live_iff hq).mpr hqlive)
      rw [Shows, Live, hsame _ (hcol _ (ColumnOf.refl _)), hsame _ (hcol _ (columnOf_metadata _))]
      rcases (h.live_iff hq).mpr hqlive with hfile | hfolder
      · obtain ⟨hgone, hlist, -⟩ := hexact.file _ hfound hfile
        rw [hgone]
        exact ⟨by simp, hlist⟩
      · obtain ⟨hmark, hlist⟩ := hexact.folder _ hfound hfolder
        rw [hmark, ← hqpath.metaCol_eq]
        exact ⟨by decide, hlist⟩
  · refine entriesOf_entriesBut hw ?_
    rw [hrow, Function.update_self]

end Represents

/-! ### A folder elsewhere -/

section Pairs

variable {R : Row} {u : List ItemName} {x : Bytes × Bytes}

/-- The items below a folder are the pairs of the move. -/
theorem Represents.pair_mem (h : Represents R t) (hu : t.item (p ++ [m] ++ u) ≠ none) :
    (pathOf (p ++ [m] ++ u), pathOf (q ++ [n] ++ u)) ∈
      Found (pairsOf R) (pathOf (p ++ [m]), pathOf (q ++ [n])) := by
  have hne : p ++ [m] ++ u ≠ [] := by simp
  have hunder := under_pathOf_append (p ++ [m]) u (by simp)
  obtain ⟨t₁, heq, hfound⟩ := @exists_pair R (pathOf (p ++ [m])) (pathOf (q ++ [n])) _
    (h.wellFormed.found (isPath_pathOf hne) hunder ((h.live_iff hne).mpr hu))
  obtain ⟨t₂, -, hold, hnew⟩ := @pathOf_append_eq (p ++ [m]) (q ++ [n]) (by simp) (by simp) u
  rw [hold] at heq
  rw [hnew, List.append_cancel_left heq]
  exact hfound

theorem Represents.exists_of_pair (h : Represents R t) (hlive : t.item (p ++ [m]) ≠ none)
    (hx : x ∈ Found (pairsOf R) (pathOf (p ++ [m]), pathOf (q ++ [n]))) :
    ∃ u, x = (pathOf (p ++ [m] ++ u), pathOf (q ++ [n] ++ u)) ∧ t.item (p ++ [m] ++ u) ≠ none := by
  have hpath : IsPath (pathOf (p ++ [m])) := isPath_pathOf (by simp)
  have hR : Live R (pathOf (p ++ [m])) := (h.live_iff (by simp)).mpr hlive
  obtain ⟨t₁, hxeq, -, hfound⟩ := exists_of_found hx
  obtain ⟨f, hf, hfeq⟩ := (path_of_found hpath hfound).exists_pathOf
  have hunder := under_of_found hfound
  have hxlive := live_of_found hR hfound
  rw [hfeq] at hunder hxlive
  obtain ⟨u, rfl⟩ := (under_pathOf_iff (by simp)).mp hunder
  obtain ⟨t₂, -, hold, hnew⟩ := @pathOf_append_eq (p ++ [m]) (q ++ [n]) (by simp) (by simp) u
  refine ⟨u, Prod.ext hfeq ?_, (h.live_iff hf).mp hxlive⟩
  rw [hxeq] at hfeq ⊢
  rw [hnew, List.append_cancel_left (hfeq.trans hold)]

end Pairs

/-- The columns in which an item is kept are no listings of other folders. -/
theorem ne_metaCol_of_item {f : List ItemName} (hf : f ≠ []) (hroot : f ≠ [rootName])
    (hq : t.item q = some .folder) {c : Bytes} (hc : ColumnOf (pathOf f) c)
    (hfolder : t.item f = some .folder → c = pathOf f) : c ≠ metaCol (pathOf q) := by
  rintro rfl
  by_cases hfq : f = q
  · exact metaCol_ne_self (hfq ▸ hfolder (hfq ▸ hq))
  · exact not_columnOf_metaCol_pathOf hf hfq hroot hc

namespace HandedOver

variable {R T R' : Row} {f : List ItemName}

/-- What is not in the subtree, and not where it has gone, is as it was. -/
theorem shows_elsewhere (hand : HandedOver R T R' (pathOf p) (pathOf q) m.1) (h : Represents R t)
    (hf : f ≠ []) (hno : ∀ x ∈ Found (pairsOf R) (inFolder (pathOf p) m.1, inFolder (pathOf q) m.1),
      x.1 ≠ pathOf f ∧ x.2 ≠ pathOf f) : Shows R' (pathOf f) (t.item f) := by
  have hpath := isPath_pathOf hf
  have hp := h.existing_iff.mp hand.parent_ex
  have hq := h.existing_iff.mp hand.target_ex
  have hshows := h.items f hf
  by_cases hroot : f = [rootName]
  · subst hroot
    rw [h.root] at hshows ⊢
    have hne : ∀ g, t.item g = some .folder →
        pathOf [rootName] ++ ascii "-metadata" ≠ metaCol (pathOf g) := by
      intro g hg heq
      have hcol := columnOf_metadata (pathOf [rootName])
      rw [heq] at hcol
      rcases columnOf_metaCol (isFolderPath_pathOf g) hpath hcol with ⟨-, hgf⟩ | ⟨hnil, -⟩
      · rw [← pathOf_injective hgf, h.root] at hg
        exact absurd hg (by simp)
      · rw [hnil] at heq
        exact absurd heq (by decide)
    refine ⟨hand.not_live_metadata, ?_⟩
    rw [hand.rest _ (hne q hq) (hne p hp), hand.outside hpath hno (columnOf_metadata _)]
    exact hshows.2
  · refine hshows.congr hpath.notMem_comma fun c hc hfolder => ?_
    rw [hand.rest c (ne_metaCol_of_item hf hroot hq hc hfolder)
      (ne_metaCol_of_item hf hroot hp hc hfolder), hand.outside hpath hno hc]

end HandedOver

namespace Represents

/-- **A folder is moved**, with everything below it. -/
theorem webStorageMoveFolder (h : Represents (kvs.row b) t)
    (hfolder : t.item (p ++ [m]) = some .folder) (hm : t.CanMove (p ++ [m]) q m)
    (hhold : CanHold (kvs.row b) (pathOf (q ++ [m]))) {fuel : ℕ} {u : Tablet}
    (hmove : (moveTree .relocate b fuel (pathOf (p ++ [m])) (pathOf (q ++ [m]))).run
      (Call.exec master) kvs = (.ok (), u))
    (hrun : (removeEntry b (pathOf p) (pathOf (p ++ [m]))).run (Call.exec master)
      (u.put b (metaCol (pathOf q)) (if isErr (u.text b (metaCol (pathOf q))) ∨
          u.text b (metaCol (pathOf q)) = [] then pathOf (q ++ [m])
        else u.text b (metaCol (pathOf q)) ++ 44 :: pathOf (q ++ [m]))) = (.ok (), s)) :
    Represents (s.row b) (t.move (p ++ [m]) q m hm) := by
  have hgood := h.wellFormed
  have hold : IsPath (pathOf (p ++ [m])) := isPath_pathOf (by simp)
  have hnew : IsPath (pathOf (q ++ [m])) := isPath_pathOf (by simp)
  have hmark : kvs.row b (pathOf (p ++ [m])) = some kvFolder :=
    (h.items _ (by simp)).folder_iff.mpr hfolder
  have happart : Apart (pathOf (p ++ [m])) (pathOf (q ++ [m])) :=
    ⟨fun hu => hm.not_prefix ((under_pathOf_iff (by simp)).mp hu),
      fun hu => hm.not_prefix' ((under_pathOf_iff (by simp)).mp hu)⟩
  obtain ⟨k, u', hrun', hcarried⟩ := hgood.carried hold hnew happart hmark master
  obtain rfl : u = u' := ((run_moveTree_iff hmark).mp ⟨fuel, hmove⟩).unique
    ((run_moveTree_iff hmark).mp ⟨k, hrun' k le_rfl⟩)
  have htrans : Transplanted (kvs.row b) (u.row b) (pathOf (p ++ [m])) (pathOf (q ++ [m])) :=
    ⟨hgood, hold, hnew, happart, hhold.free, hhold.plain, hmark, hcarried⟩
  have hlive : t.item (p ++ [m]) ≠ none := by simp [hfolder]
  have hp : t.item p = some .folder := t.parent p m hlive
  rw [pathOf_concat p, pathOf_concat q] at htrans hrun
  have hand := handedOver_of_run htrans m.2 (isFolderPath_pathOf p) (isFolderPath_pathOf q)
    (h.existing_iff.mpr hm.folder) (fun _ hu => hm.outside ((under_pathOf_iff (by simp)).mp
      (pathOf_concat p m ▸ hu))) hrun
  refine Represents.of_wellFormed (hand.wellFormed (pathOf_concat q m ▸ hhold.readable))
    fun f hf => ?_
  have hpairs : ∀ x ∈ Found (pairsOf (kvs.row b)) (inFolder (pathOf p) m.1,
      inFolder (pathOf q) m.1), ∃ v, x = (pathOf (p ++ [m] ++ v), pathOf (q ++ [m] ++ v)) ∧
        t.item (p ++ [m] ++ v) ≠ none := by
    intro x hx
    rw [← pathOf_concat, ← pathOf_concat] at hx
    exact h.exists_of_pair hlive hx
  by_cases hnewf : q ++ [m] <+: f
  · obtain ⟨v, rfl⟩ := hnewf
    rw [FileTree.item_move_new]
    rcases hitem : t.item (p ++ [m] ++ v) with _ | x
    · -- nothing has come here
      have hnone : t.item (q ++ [m] ++ v) = none :=
        t.item_eq_none_of_prefix hm.free (List.prefix_append _ v)
      rw [← hnone]
      refine hand.shows_elsewhere h hf fun x hx => ?_
      obtain ⟨w, rfl, hw⟩ := hpairs x hx
      refine ⟨fun heq => hw ?_, fun heq => hw ?_⟩
      · rw [pathOf_injective heq, hnone]
      · rw [List.append_cancel_left (pathOf_injective heq), hitem]
    · have hpair := @Represents.pair_mem t p q m m (kvs.row b) v h
        (hitem ▸ Option.some_ne_none x)
      rw [pathOf_concat p, pathOf_concat q] at hpair
      have hmarker := hand.rest_of_new hpair (ColumnOf.refl _)
      rw [(hand.marker_new hpair).1] at hmarker
      have hshows := h.items (p ++ [m] ++ v) (by simp)
      rw [hitem] at hshows
      rcases x with _ | d
      · exact hmarker.trans hshows
      · obtain ⟨hfile, -, hbytes, hdata⟩ := hshows
        obtain ⟨k, hch, hsame⟩ := hand.chunks_new hpair hfile
        exact ⟨hmarker.trans hfile, ⟨k, hch⟩, hsame.trans hbytes, hdata⟩
  · have hno : ∀ v, pathOf (q ++ [m] ++ v) ≠ pathOf f := fun v heq =>
      hnewf ⟨v, pathOf_injective heq⟩
    by_cases holdf : p ++ [m] <+: f
    · rw [FileTree.item_move_old hm holdf]
      obtain ⟨v, rfl⟩ := holdf
      by_cases hitem : t.item (p ++ [m] ++ v) = none
      · rw [← hitem]
        refine hand.shows_elsewhere h hf fun x hx => ?_
        obtain ⟨w, rfl, hw⟩ := hpairs x hx
        refine ⟨fun heq => hw ?_, hno w⟩
        rw [pathOf_injective heq, hitem]
      · have hpair := @Represents.pair_mem t p q m m (kvs.row b) v h hitem
        rw [pathOf_concat p, pathOf_concat q] at hpair
        have hroot : p ++ [m] ++ v ≠ [rootName] := fun heq => hitem (heq ▸ h.root)
        have hT : ∀ c, ColumnOf (pathOf (p ++ [m] ++ v)) c → s.row b c = u.row b c := by
          intro c hc
          refine hand.rest_of_columnOf (isPath_pathOf hf) (fun heq => hroot
            (pathOf_eq_metadata.mp heq)) (fun heq => hm.outside ?_) (fun heq => ?_) hc
          · exact ⟨v, pathOf_injective heq⟩
          · have hlen := congrArg List.length (pathOf_injective heq)
            simp at hlen
        rw [Shows, Live, hT _ (ColumnOf.refl _), hT _ (columnOf_metadata _)]
        rcases (hand.marker_new hpair).2 with hfile | hfold
        · obtain ⟨k, -, hplaced⟩ := (hand.carried.placed _ hpair).file hfile
          rw [hplaced.gone_marker]
          exact ⟨by simp, hplaced.gone_list⟩
        · obtain ⟨hgone, hlist, -⟩ := (hand.carried.placed _ hpair).folder hfold
          rw [hgone]
          exact ⟨by decide, hlist⟩
    · rw [FileTree.item_move_of_not hm hnewf holdf]
      refine hand.shows_elsewhere h hf fun x hx => ?_
      obtain ⟨w, rfl, -⟩ := hpairs x hx
      exact ⟨fun heq => holdf ⟨w, pathOf_injective heq⟩, hno w⟩

end Represents

/-! ### An empty folder elsewhere -/

/-- The empty entry of an empty listing is moved as if it were a file, to a path that is
none: no item is touched. -/
theorem row_moveChild_nil {new v c : Bytes} {move : Bytes → Bytes → Handler Unit}
    (hblank : Blank (kvs.row b)) (hnew : IsPath new) (hv : IsPath v) (hc : ColumnOf v c) :
    ((moveChild .rename b move new []).run (Call.exec master) kvs).2.row b c = kvs.row b c := by
  have hmarker : kvs.text b [] ≠ kvFolder := by
    intro heq
    have hrow := (Tablet.text_eq_iff isErr_kvFolder).mp heq
    rw [hblank [] (Or.inl rfl)] at hrow
    exact absurd hrow (by simp)
  have hslash : ¬IsPath (new ++ [47]) := by
    intro hpath
    have hmem : [] ∈ (new ++ [47]).splitOn 47 := by
      rw [List.splitOn_append_cons_self]
      exact List.mem_append_right _ (by simp)
    exact absurd (hpath [] hmem) (by decide)
  have hdash : (45 : UInt8) ∉ new ++ [47] := by simpa using hnew.notMem_dash
  have hne : ∀ a c', ¬IsPath a → 45 ∉ a → ColumnOf a c' → c ≠ c' := by
    rintro a c' ha hdash hc' rfl
    exact ha (ColumnOf.eq hv.notMem_dash hdash hc hc' ▸ hv)
  have hnil : ¬IsPath [] := fun hpath => hpath.ne_nil rfl
  have hmoves : TreeMove.rename.moves (kvs.text b []) = true := rfl
  rw [moveChild, run_Get_bind, if_neg hmarker, if_pos hmoves,
    TreeMove.rename.target_nil [] [] new List.mem_cons_self]
  obtain ⟨w, hrow⟩ := relocateFile_nil_row master hblank (new ++ [47])
  rw [hrow, Function.update_of_ne (hne [] _ hnil List.not_mem_nil (ColumnOf.refl _)),
    Function.update_of_ne (hne _ _ hslash hdash (ColumnOf.refl _)),
    Function.update_of_ne (hne [] (ascii "-content") hnil List.not_mem_nil (columnOf_content [])),
    Function.update_of_ne (hne _ _ hslash hdash (columnOf_content _))]

/-- The listing of a folder is a column of some path. -/
theorem exists_columnOf_metaCol (f : List ItemName) :
    ∃ g, g ≠ [] ∧ ColumnOf (pathOf g) (metaCol (pathOf f)) := by
  by_cases hf : f = []
  · rw [hf]
    exact ⟨[rootName], by simp, ColumnOf.refl _⟩
  · refine ⟨f, hf, ?_⟩
    rw [(isPath_pathOf hf).metaCol_eq]
    exact columnOf_metadata _

namespace Represents

/-- **A folder with an empty listing is renamed.** -/
theorem webStorageRenameFolder (h : Represents (kvs.row b) t) (hblank : Blank (kvs.row b))
    (hfolder : t.item (p ++ [m]) = some .folder)
    (hempty : kvs.row b (pathOf (p ++ [m]) ++ ascii "-metadata") = some [])
    (hhold : CanHold (kvs.row b) (pathOf (p ++ [n]))) {fuel : ℕ}
    (hrun : (moveTree .rename b fuel (pathOf (p ++ [m])) (pathOf (p ++ [n]))).run
      (Call.exec master) (kvs.put b (metaCol (pathOf p)) (joinStorage (replaceEntry
        (pathOf (p ++ [m])) (pathOf (p ++ [n])) (splitStringStorage
          (kvs.text b (metaCol (pathOf p))))))) = (.ok (), s))
    (hleaf : ∀ u, u ≠ [] → t.item (p ++ [m] ++ u) = none) (hm : t.CanMove (p ++ [m]) p n) :
    Represents (s.row b) (t.move (p ++ [m]) p n hm) := by
  have hold : IsPath (pathOf (p ++ [m])) := isPath_pathOf (by simp)
  have hnew : IsPath (pathOf (p ++ [n])) := isPath_pathOf (by simp)
  have happart : Apart (pathOf (p ++ [m])) (pathOf (p ++ [n])) :=
    ⟨fun hu => hm.not_prefix ((under_pathOf_iff (by simp)).mp hu),
      fun hu => hm.not_prefix' ((under_pathOf_iff (by simp)).mp hu)⟩
  have hp := hm.folder
  have hroot : p ++ [m] ≠ [rootName] := fun heq => hm.live (heq ▸ h.root)
  obtain ⟨-, w, hw, -⟩ := mem_entriesOf.mp (((h.listings p hp).mem_iff _).mpr ⟨m, rfl, hm.live⟩)
  rw [Tablet.text_of_row hw] at hrun
  generalize hkvs : kvs.put b (metaCol (pathOf p)) (joinStorage (replaceEntry (pathOf (p ++ [m]))
    (pathOf (p ++ [n])) (splitStringStorage w))) = kvs' at hrun
  have hrow : kvs'.row b = Function.update (kvs.row b) (metaCol (pathOf p)) (some (joinStorage
      (replaceEntry (pathOf (p ++ [m])) (pathOf (p ++ [n])) (splitStringStorage w)))) := by
    rw [← hkvs, Tablet.row_put]
  have hmeta : pathOf (p ++ [m]) ++ ascii "-metadata" ≠ metaCol (pathOf p) := fun heq =>
    not_columnOf_metaCol_pathOf (by simp) (by simp) hroot (heq ▸ columnOf_metadata _)
  have htext : kvs'.text b (pathOf (p ++ [m]) ++ ascii "-metadata") = [] := by
    refine Tablet.text_of_row ?_
    rw [hrow, Function.update_of_ne hmeta, hempty]
  have hblank' : Blank (kvs'.row b) := by
    rw [hrow]
    exact hblank.update (rooted_metaCol (isFolderPath_pathOf p)).not_isBlank _
  -- one round, and one entry that is empty
  rcases fuel with _ | fuel
  · exact absurd (Prod.mk.inj hrun).1 (by simp)
  rw [run_moveTree_open, htext] at hrun
  have hopen := row_openTablet kvs' b (pathOf (p ++ [m])) (pathOf (p ++ [n])) []
  have hblankOpen :
      Blank ((openTablet kvs' b (pathOf (p ++ [m])) (pathOf (p ++ [n])) []).row b) := by
    rw [hopen]
    exact hblank'.opened hold hnew []
  have hs : ∀ f, f ≠ [] → ∀ c, ColumnOf (pathOf f) c →
      s.row b c = opened (kvs'.row b) (pathOf (p ++ [m])) (pathOf (p ++ [n])) [] c := by
    intro f hf c hc
    rw [← hopen, ← @row_moveChild_nil b master _ _ _ _ (moveTree .rename b fuel) hblankOpen hnew
      (isPath_pathOf hf) hc]
    obtain ⟨_, u, hu, hrest⟩ := Prog.run_bind_ok _ hrun
    obtain ⟨-, rfl⟩ := Prod.mk.inj hrest
    exact (congrFun (congrArg (fun x => x.2.row b) hu) c).symm
  -- columns of other paths are not touched, but for the listing
  have hother : ∀ c, ¬ColumnOf (pathOf (p ++ [m])) c → ¬ColumnOf (pathOf (p ++ [n])) c →
      opened (kvs'.row b) (pathOf (p ++ [m])) (pathOf (p ++ [n])) [] c = kvs'.row b c := by
    intro c hc hc'
    have hne : ∀ a c', ¬ColumnOf a c → ColumnOf a c' → c ≠ c' := fun a c' ha hc'' heq =>
      ha (heq ▸ hc'')
    exact opened_of_ne (hne _ _ hc' (ColumnOf.refl _)) (hne _ _ hc' (columnOf_metadata _))
      (hne _ _ hc (ColumnOf.refl _)) (hne _ _ hc (columnOf_metadata _))
  refine h.moveLeaf hm hfolder hleaf hhold.ne_root hhold.readable ⟨?_, ?_⟩ ?_ (fun _ => ?_)
    (fun f hf hfold => ?_) fun f hf hfold hfnew c hc hcp _ => ?_
  · rw [Live, hs _ (by simp) _ (ColumnOf.refl _), opened_self]
    decide
  · rw [hs _ (by simp) _ (columnOf_metadata _)]
    exact Function.update_self ..
  · rw [Shows, hs _ (by simp) _ (ColumnOf.refl _), opened_new happart]
  · rw [entriesOf_of_some (v := [])]
    · rfl
    · rw [hnew.metaCol_eq, hs _ (by simp) _ (columnOf_metadata _), opened_listing happart]
  · have hlists := h.listings f hf
    have hsame : s.row b (metaCol (pathOf f)) = kvs'.row b (metaCol (pathOf f)) := by
      obtain ⟨g, hg, hcol⟩ := exists_columnOf_metaCol f
      rw [hs g hg _ hcol]
      refine hother _ (not_columnOf_metaCol_pathOf (by simp) (Ne.symm hfold) hroot)
        (not_columnOf_metaCol_pathOf (by simp) ?_ hhold.ne_root)
      rintro rfl
      rw [hm.free] at hf
      exact absurd hf (by simp)
    by_cases hfp : f = p
    · subst hfp
      rw [entriesOf_replaceEntry hw hold.ne_nil hnew.ne_nil hnew.notMem_comma]
      · exact hlists.replaced hm hleaf
      · rw [hsame, hrow, Function.update_self]
    · rw [hrow, Function.update_of_ne fun heq => hfp (pathOf_injective (metaCol_inj heq))] at hsame
      rw [entriesOf_congr hsame]
      exact hlists.unmoved hm hleaf hfp hfp
  · rw [hs f hf c hc, hother c (not_columnOf_pathOf (by simp) hf hfold hc)
      (not_columnOf_pathOf (by simp) hf hfnew hc), hrow, Function.update_of_ne hcp]

end Represents

end PennCloud
