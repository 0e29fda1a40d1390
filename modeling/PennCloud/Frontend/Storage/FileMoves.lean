import PennCloud.Frontend.Storage.Contents

/-!
# Moving a file

A file that is moved takes its chunks along: the content of each goes to the same number
under the new path, and then the list and the marker follow
(`PennCloud.relocated_of_run`). `moveFile` does this after it has looked for a path that
is free, and then puts the file on one listing and takes it off another, which may be the
same (`PennCloud.moveFile_keeps`).
-/

namespace PennCloud

open Wire Calls Text

variable {master : Master} {kvs : Tablet} {b : Bytes}

/-! ### A file and its chunks -/

section Relocate

variable {old new : Bytes} {n : ℕ}

/-- The row `R'` has the file of `n` chunks that was at `old` at `new`. -/
structure FilePlaced (R R' : Row) (old new : Bytes) (n : ℕ) : Prop where
  /-- Its marker is gone, -/
  gone_marker : R' old = none
  /-- its list, -/
  gone_list : R' (old ++ ascii "-metadata") = none
  /-- and its contents. -/
  gone_contents : ∀ i < n, R' (contentCol old (i + 1)) = none
  /-- There is a file at the new path, -/
  marker : R' new = some kvFile
  /-- with a list of as many chunks, -/
  list : R' (new ++ ascii "-metadata") = some (joinStorage (chunkNames new n))
  /-- and the contents. -/
  contents : ∀ i < n, R' (contentCol new (i + 1)) = R (contentCol old (i + 1))

/-- The file was moved, and nothing else has changed. -/
structure Relocated (R R' : Row) (old new : Bytes) (n : ℕ) : Prop
    extends FilePlaced R R' old new n where
  /-- Nothing else has changed. -/
  outside : ∀ c, ¬ColumnOf old c → ¬ColumnOf new c → R' c = R c

theorem contentCol_ne (hold : 45 ∉ old) (hnew : 45 ∉ new) (hne : old ≠ new) (i j : ℕ) :
    contentCol old i ≠ contentCol new j := fun heq =>
  hne (ColumnOf.eq hold hnew (columnOf_contentCol old i) (heq ▸ columnOf_contentCol new j))

/-- The loop over the chunks. -/
theorem run_moveChunks (hold : 45 ∉ old) (hnew : 45 ∉ new) (hne : old ≠ new) {is : List ℕ}
    (hnodup : is.Nodup) (hcontents : ∀ i ∈ is, kvs.row b (contentCol old i) ≠ none) :
    ∃ t : Tablet, (moveChunks b old new (is.map (chunkName old))).run (Call.exec master) kvs =
        (.ok (is.map (chunkName new)), t) ∧
      (∀ i ∈ is, t.row b (contentCol old i) = none ∧
        t.row b (contentCol new i) = kvs.row b (contentCol old i)) ∧
      ∀ c, (∀ i ∈ is, c ≠ contentCol old i ∧ c ≠ contentCol new i) → t.row b c = kvs.row b c := by
  induction is generalizing kvs with
  | nil => exact ⟨kvs, rfl, by simp, fun _ _ => rfl⟩
  | cons i is ih =>
    obtain ⟨hi, hnodup⟩ := List.nodup_cons.mp hnodup
    obtain ⟨v, hv⟩ := Option.ne_none_iff_exists'.mp (hcontents i List.mem_cons_self)
    -- the store after one chunk
    have hrow : ∀ c, ((kvs.put b (contentCol new i) v).delete b (contentCol old i)).row b c =
        if c = contentCol old i then none else if c = contentCol new i then some v
          else kvs.row b c := by
      intro c
      rw [Tablet.row_delete, Tablet.row_put, Function.update_apply, Function.update_apply]
    have hother : ∀ j ∈ is, contentCol old j ≠ contentCol old i ∧
        contentCol old j ≠ contentCol new i := fun j hj =>
      ⟨fun heq => hi (contentCol_inj heq ▸ hj), contentCol_ne hold hnew hne j i⟩
    obtain ⟨t, ht, hmoved, hrest⟩ := @ih ((kvs.put b (contentCol new i) v).delete b
      (contentCol old i)) hnodup fun j hj => by
        rw [hrow, if_neg (hother j hj).1, if_neg (hother j hj).2]
        exact hcontents j (List.mem_cons_of_mem i hj)
    refine ⟨t, ?_, ?_, ?_⟩
    · have hdrop : (chunkName old i).drop old.length = ascii "-" ++ decimal i := by
        rw [chunkName, List.append_assoc, List.drop_left]
      have hlen : ¬(chunkName old i).length < old.length := by simp [chunkName]
      rw [List.map_cons, moveChunks, if_neg hlen]
      dsimp only
      rw [hdrop, ← List.append_assoc]
      rw [run_Get_bind, run_Put_bind, run_Delete_bind]
      have htext : kvs.text b (chunkName old i ++ ascii "-content") = v := Tablet.text_of_row hv
      rw [htext]
      exact Prog.run_bind_of_ok _ ht
    · intro j hj
      rcases List.mem_cons.mp hj with rfl | hj
      · have hcol : ∀ k ∈ is, contentCol old j ≠ contentCol old k ∧
            contentCol old j ≠ contentCol new k := fun k hk =>
          ⟨(hother k hk).1.symm, contentCol_ne hold hnew hne j k⟩
        have hcol' : ∀ k ∈ is, contentCol new j ≠ contentCol old k ∧
            contentCol new j ≠ contentCol new k := fun k hk =>
          ⟨(contentCol_ne hold hnew hne k j).symm, fun heq => hi (contentCol_inj heq ▸ hk)⟩
        rw [hrest _ hcol, hrest _ hcol', hrow, hrow, if_pos rfl,
          if_neg (contentCol_ne hold hnew hne j j).symm, if_pos rfl, hv]
        exact ⟨rfl, rfl⟩
      · rw [(hmoved j hj).1, (hmoved j hj).2, hrow, if_neg (hother j hj).1, if_neg (hother j hj).2]
        exact ⟨rfl, rfl⟩
    · intro c hc
      obtain ⟨h1, h2⟩ := hc i List.mem_cons_self
      rw [hrest c fun j hj => hc j (List.mem_cons_of_mem i hj), hrow, if_neg h1, if_neg h2]

theorem chunkNames_eq_map (p : Bytes) (n : ℕ) :
    chunkNames p n = ((List.range n).map (· + 1)).map (chunkName p) := by
  rw [chunkNames, List.map_map]
  rfl

/-- **A file that is moved** is at its new path with all of its chunks. -/
theorem run_relocateFile (hold : IsPath old) (hnew : IsPath new) (hne : old ≠ new)
    (herr : isErr old = false) (h : Chunks (kvs.row b) old n) :
    ∃ t : Tablet, (relocateFile b old new).run (Call.exec master) kvs = (.ok (), t) ∧
      Relocated (kvs.row b) (t.row b) old new n := by
  have hold' := hold.notMem_dash
  have hnew' := hnew.notMem_dash
  have hcomma := hold.notMem_comma
  have htext := Tablet.text_of_row h.list
  have hread : kvs.text b (old ++ ascii "-metadata") ≠ [] ∧
      isErr (kvs.text b (old ++ ascii "-metadata")) = false := by
    rw [htext]
    exact ⟨joinStorage_chunkNames_ne_nil hcomma h.pos, (isErr_chunkNames hcomma h.pos).trans herr⟩
  obtain ⟨t, ht, hmoved, hrest⟩ := @run_moveChunks master kvs b old new hold' hnew' hne
    ((List.range n).map (· + 1))
    (List.nodup_range.map fun i j hij => Nat.succ.inj hij) (fun i hi => by
      obtain ⟨j, hj, rfl⟩ := List.mem_map.mp hi
      exact h.contents _ (mem_chunkNames.mpr ⟨j, List.mem_range.mp hj, rfl⟩))
  have hmem : ∀ i < n, i + 1 ∈ (List.range n).map (· + 1) := fun i hi =>
    List.mem_map.mpr ⟨i, List.mem_range.mpr hi, rfl⟩
  refine ⟨(((t.put b (new ++ ascii "-metadata") (joinStorage (chunkNames new n))).delete b
    (old ++ ascii "-metadata")).put b new kvFile).delete b old, ?_, ?_⟩
  · rw [relocateFile, moveContent, Prog.bind_bind, run_Get_bind, if_pos hread, htext,
      split_chunkNames hcomma h.pos, chunkNames_eq_map, Prog.bind_bind, Prog.run_bind_of_ok _ ht,
      ← chunkNames_eq_map, Prog.bind_bind, run_Put_bind, Prog.bind_bind, run_Delete_bind,
      Prog.pure_bind, run_Put_bind, run_Delete_bind]
    rfl
  · have hrow : ∀ c,
        ((((t.put b (new ++ ascii "-metadata") (joinStorage (chunkNames new n))).delete b
        (old ++ ascii "-metadata")).put b new kvFile).delete b old).row b c =
          if c = old then none else if c = new then some kvFile
          else if c = old ++ ascii "-metadata" then none
          else if c = new ++ ascii "-metadata" then some (joinStorage (chunkNames new n))
          else t.row b c := by
      intro c
      simp only [Tablet.row_delete, Tablet.row_put, Function.update_apply]
    have hdash : ∀ p q : Bytes, 45 ∉ p → q ++ ascii "-metadata" ≠ p := fun p q hp heq =>
      hp (heq ▸ List.mem_append_right q (by decide))
    have hlist : new ++ ascii "-metadata" ≠ old ++ ascii "-metadata" := fun heq =>
      hne (List.append_cancel_right heq).symm
    -- the columns of the contents are none of the others
    have hcontent : ∀ c, IsContent c → ∀ v, t.row b c = v → (((((t.put b (new ++ ascii "-metadata")
        (joinStorage (chunkNames new n))).delete b (old ++ ascii "-metadata")).put b new
          kvFile).delete b old).row b c) = v := by
      intro c hc v hv
      rw [hrow, if_neg, if_neg, if_neg, if_neg, hv]
      · rintro rfl
        exact not_isContent_metadata new hc
      · rintro rfl
        exact not_isContent_metadata old hc
      · rintro rfl
        exact hnew.not_isContent hc
      · rintro rfl
        exact hold.not_isContent hc
    refine ⟨⟨?_, ?_, fun i hi => ?_, ?_, ?_, fun i hi => ?_⟩, fun c hc hc' => ?_⟩
    · rw [hrow, if_pos rfl]
    · rw [hrow, if_neg (hdash _ _ hold'), if_neg (hdash _ _ hnew'), if_pos rfl]
    · exact hcontent _ (isContent_append _) _ (hmoved _ (hmem i hi)).1
    · rw [hrow, if_neg hne.symm, if_pos rfl]
    · rw [hrow, if_neg (hdash _ _ hold'), if_neg (hdash _ _ hnew'), if_neg hlist, if_pos rfl]
    · exact hcontent _ (isContent_append _) _ (hmoved _ (hmem i hi)).2
    · have hself : ∀ p s : Bytes, ¬ColumnOf p c → ColumnOf p s → c ≠ s := fun p s hp hs heq =>
        hp (heq ▸ hs)
      rw [hrow, if_neg (hself _ _ hc (ColumnOf.refl old)),
        if_neg (hself _ _ hc' (ColumnOf.refl new)),
        if_neg (hself _ _ hc (columnOf_metadata old)),
        if_neg (hself _ _ hc' (columnOf_metadata new))]
      exact hrest c fun i _ => ⟨hself _ _ hc (columnOf_contentCol old i),
        hself _ _ hc' (columnOf_contentCol new i)⟩

theorem FilePlaced.chunks {R R' : Row} (h : FilePlaced R R' old new n) (hch : Chunks R old n) :
    Chunks R' new n := by
  refine ⟨hch.pos, h.list, fun chunk hchunk => ?_⟩
  obtain ⟨i, hi, rfl⟩ := mem_chunkNames.mp hchunk
  have hmoved := h.contents i hi
  rw [contentCol, contentCol] at hmoved
  rw [hmoved]
  exact hch.contents _ (mem_chunkNames.mpr ⟨i, hi, rfl⟩)

/-- This is about the columns of the two paths. -/
theorem FilePlaced.congr {R R' R'' : Row} (h : FilePlaced R R' old new n)
    (hold : ∀ c, ColumnOf old c → R'' c = R' c) (hnew : ∀ c, ColumnOf new c → R'' c = R' c) :
    FilePlaced R R'' old new n :=
  ⟨(hold _ (ColumnOf.refl old)).trans h.gone_marker,
    (hold _ (columnOf_metadata old)).trans h.gone_list,
    fun i hi => (hold _ (columnOf_contentCol old _)).trans (h.gone_contents i hi),
    (hnew _ (ColumnOf.refl new)).trans h.marker, (hnew _ (columnOf_metadata new)).trans h.list,
    fun i hi => (hnew _ (columnOf_contentCol new _)).trans (h.contents i hi)⟩

/-- And in the row before, about those of the old one. -/
theorem FilePlaced.of_eq {R₀ R R' : Row} (h : FilePlaced R R' old new n)
    (heq : ∀ c, ColumnOf old c → R c = R₀ c) : FilePlaced R₀ R' old new n :=
  ⟨h.gone_marker, h.gone_list, h.gone_contents, h.marker, h.list,
    fun i hi => (h.contents i hi).trans (heq _ (columnOf_contentCol old _))⟩

/-- The bytes are the same. -/
theorem FilePlaced.bytes {R R' : Row} (h : FilePlaced R R' old new n) (hch : Chunks R old n)
    (hold : 44 ∉ old) (hnew : 44 ∉ new) : bytesOf R' new = bytesOf R old := by
  rw [hch.bytesOf_eq hold, (h.chunks hch).bytesOf_eq hnew]
  refine congrArg List.flatten (List.map_congr_left fun i hi => ?_)
  exact congrArg (fun v => Option.getD v []) (h.contents i (List.mem_range.mp hi))

end Relocate

/-! ### Listings -/

section Listings

variable {R : Row} {folder entry v w : Bytes}

theorem entriesOf_of_some (h : R (metaCol folder) = some v) :
    entriesOf R folder = (splitStringStorage v).filter fun e => e ≠ [] := by
  rw [entriesOf, h]

theorem entriesOf_congr {R' : Row} (h : R' (metaCol folder) = R (metaCol folder)) :
    entriesOf R' folder = entriesOf R folder := by
  rw [entriesOf, entriesOf, h]

/-- One entry more. -/
theorem entriesOf_concat {R' : Row} (h : R (metaCol folder) = some w) (hv : 44 ∉ v) (hne : v ≠ [])
    (h' : R' (metaCol folder) = some (joinStorage (splitStringStorage w ++ [v]))) :
    entriesOf R' folder = entriesOf R folder ++ [v] := by
  rw [entriesOf_of_some h, entriesOf_of_some h', joinStorage_concat hv, splitStringStorage_append,
    splitStringStorage_of_notMem hv, List.filter_append,
    List.filter_cons_of_pos (by simpa using hne), List.filter_nil]

/-- The column of a listing that an entry is taken off. -/
theorem removeEntry_metaCol {s : Tablet} (hv : kvs.row b (metaCol folder) = some v)
    (h : (removeEntry b folder entry).run (Call.exec master) kvs = (.ok (), s)) :
    s.row b (metaCol folder) = if keptEntries entry v = [] then none
      else some (joinStorage (keptEntries entry v)) := by
  obtain ⟨t, ht, hrow⟩ := @run_removeEntry b master kvs folder entry
  obtain ⟨-, rfl⟩ := Prod.mk.inj (ht.symm.trans h)
  rw [hrow, Function.update_self, Tablet.text_of_row hv]

/-- One entry less. -/
theorem entriesOf_lost {R' : Row} (hv : R (metaCol folder) = some v)
    (h : R' (metaCol folder) = if keptEntries entry v = [] then none
      else some (joinStorage (keptEntries entry v))) :
    entriesOf R' folder = (entriesOf R folder).filter fun e => e ≠ entry := by
  have hfilter : (entriesOf R folder).filter (fun e => e ≠ entry) =
      (keptEntries entry v).filter fun e => e ≠ [] := by
    rw [entriesOf_of_some hv, keptEntries, List.filter_filter, List.filter_filter]
    exact List.filter_congr fun e _ => Bool.and_comm _ _
  rw [hfilter]
  by_cases hnil : keptEntries entry v = []
  · rw [if_pos hnil] at h
    rw [entriesOf, h, hnil]
    rfl
  · rw [if_neg hnil] at h
    have hsplit : splitStringStorage (joinStorage (keptEntries entry v)) = keptEntries entry v :=
      List.splitOn_intercalate 44 (fun e he => notMem_comma_of_mem (mem_keptEntries.mp he).1) hnil
    rw [entriesOf_of_some h, hsplit]

/-- A list that the entry is not on stays as it is. -/
theorem removeEntry_of_notMem {s : Tablet} (hv : kvs.row b (metaCol folder) = some v)
    (hmem : entry ∉ splitStringStorage v)
    (h : (removeEntry b folder entry).run (Call.exec master) kvs = (.ok (), s)) :
    s.row b (metaCol folder) = some v := by
  have hkept : keptEntries entry v = splitStringStorage v :=
    List.filter_eq_self.mpr fun e he => decide_eq_true fun heq => hmem (heq ▸ he)
  rw [removeEntry_metaCol hv h, hkept, if_neg (splitStringStorage_ne_nil v)]
  exact congrArg some (List.intercalate_splitOn 44)

end Listings

/-! ### `moveFile` -/

section MoveFile

variable {R R' : Row} {f target v : Bytes} {n : ℕ}

theorem extension_leaf {m : Bytes} (hm : isValidName m = true) (i : ℕ) :
    extension (leafBase m ++ parenthesized i ++ leafExt m) = extension m := by
  rcases isValidName_iff.mp hm with h | ⟨a, c, rfl, ha, hc⟩
  · have hdot := notMem_of_isSegment h
    rw [leafBase, leafExt, if_neg hdot, if_neg hdot, List.append_nil, extension_of_notMem hdot,
      extension_of_notMem (notMem_of_isSegment (isSegment_numbered h i))]
  · have hdot : 46 ∈ a ++ 46 :: c := List.mem_append_right a List.mem_cons_self
    rw [leafBase, leafExt, if_pos hdot, if_pos hdot, beforeLast_append a (notMem_of_isSegment hc),
      afterLast_append a (notMem_of_isSegment hc), extension_append hc, extension_append hc]

/-- A path that a file may be moved to: in the target folder, with the same extension, and
free. -/
def FreeIn (R : Row) (target f v : Bytes) : Prop :=
  (∃ m, isValidName m = true ∧ v = inFolder target m ∧
    extension m = extension (afterLast 47 f)) ∧ ¬Live R v

/-- **The file `f` was moved** to `v`, which is in the folder `target`. -/
structure FileMoved (R R' : Row) (f target v : Bytes) (n : ℕ) : Prop where
  /-- It is at the new path, -/
  file : R' v = some kvFile
  /-- with all of its chunks -/
  chunks : Chunks R' v n
  /-- and its bytes, -/
  bytes : bytesOf R' v = bytesOf R f
  /-- and not at the old one. -/
  gone : R' f = none ∧ R' (f ++ ascii "-metadata") = none ∧
    ∀ i < n, R' (contentCol f (i + 1)) = none
  /-- The target has gained it, and the folder it was in has lost it, which may be the same
  folder. The root may have no listing to take it from. -/
  listings : ∀ folder, IsFolderPath folder → Existing R folder →
    (folder = beforeLast 47 f → folder = [] → R (metaCol folder) ≠ none) →
      entriesOf R' folder =
        ((entriesOf R folder).filter fun e => ¬(folder = beforeLast 47 f ∧ e = f)) ++
          if folder = target then [v] else []
  /-- No other item has changed, but for the two listings. -/
  items : ∀ q, IsPath q → Live R q → q ≠ f → ∀ c, ColumnOf q c → R' c = R c ∨
    (R q = some kvFolder ∧ c = metaCol q ∧ (q = target ∨ q = beforeLast 47 f))

/-- The listings of a folder that is there are no columns of a path where no folder is. -/
theorem not_columnOf_metaCol {folder q : Bytes} (hfolder : IsFolderPath folder)
    (hex : Existing R folder) (hq : IsPath q) (hfile : R q ≠ some kvFolder)
    (hmeta : q ≠ ascii "metadata") : ¬ColumnOf q (metaCol folder) := by
  intro hcol
  rcases columnOf_metaCol hfolder hq hcol with ⟨hne, rfl⟩ | ⟨-, rfl⟩
  · exact hfile (hex.resolve_left hne)
  · exact hmeta rfl

/-- A path is on no list of chunks. -/
theorem notMem_split_chunkNames {p q : Bytes} (hp : 44 ∉ p) (hq : 45 ∉ q) {k : ℕ} (hk : 0 < k) :
    q ∉ splitStringStorage (joinStorage (chunkNames p k)) := by
  rw [split_chunkNames hp hk]
  intro hmem
  obtain ⟨i, -, rfl⟩ := mem_chunkNames.mp hmem
  rw [chunkName_eq] at hq
  exact hq (List.mem_append_right p List.mem_cons_self)

/-- What the last two steps of `moveFile` do, the file being at its new path. -/
structure Relisted (R R' : Row) (f source target v : Bytes) : Prop where
  /-- The entry is put on the one listing, and taken off the other. -/
  listings : ∀ folder, (folder = source ∨ folder = target → R (metaCol folder) ≠ none) →
    entriesOf R' folder = ((entriesOf R folder ++ if folder = target then [v] else []).filter
      fun e => ¬(folder = source ∧ e = f))
  /-- A list that is not one of folders stays as it is. -/
  lists : metaCol source ≠ metaCol target → ∀ w, R (metaCol source) = some w →
    f ∉ splitStringStorage w → R' (metaCol source) = some w
  /-- So does everything else. -/
  outside : ∀ c, c ≠ metaCol source → c ≠ metaCol target → R' c = R c

theorem relisted_of_run {source : Bytes} {t s : Tablet} (hv : 44 ∉ v) (hvne : v ≠ [])
    (h : (removeEntry b source f).run (Call.exec master) (t.put b (metaCol target)
      (joinStorage (splitStringStorage (t.text b (metaCol target)) ++ [v]))) = (.ok (), s)) :
    Relisted (t.row b) (s.row b) f source target v := by
  have hput : ∀ c, c ≠ metaCol target → (t.put b (metaCol target) (joinStorage
      (splitStringStorage (t.text b (metaCol target)) ++ [v]))).row b c = t.row b c := by
    intro c hc
    rw [Tablet.row_put, Function.update_of_ne hc]
  have hself : (t.put b (metaCol target) (joinStorage
      (splitStringStorage (t.text b (metaCol target)) ++ [v]))).row b (metaCol target) = some
        (joinStorage (splitStringStorage (t.text b (metaCol target)) ++ [v])) := by
    rw [Tablet.row_put, Function.update_self]
  refine ⟨fun folder hpresent => ?_, fun hne w hw hmem => ?_, fun c hc hc' => ?_⟩
  · -- first the target
    have htarget : entriesOf ((t.put b (metaCol target) (joinStorage
        (splitStringStorage (t.text b (metaCol target)) ++ [v]))).row b) folder =
          entriesOf (t.row b) folder ++ if folder = target then [v] else [] := by
      by_cases heq : folder = target
      · subst heq
        obtain ⟨w, hw⟩ := Option.ne_none_iff_exists'.mp (hpresent (Or.inr rfl))
        rw [Tablet.text_of_row hw] at hself
        rw [if_pos rfl, Tablet.text_of_row hw, entriesOf_concat hw hv hvne hself]
      · rw [if_neg heq, List.append_nil]
        exact entriesOf_congr (hput _ fun hcol => heq (metaCol_inj hcol))
    rw [← htarget]
    by_cases heq : folder = source
    · subst heq
      have hsome : (t.put b (metaCol target) (joinStorage (splitStringStorage
          (t.text b (metaCol target)) ++ [v]))).row b (metaCol folder) ≠ none := by
        by_cases hcol : metaCol folder = metaCol target
        · rw [hcol, hself]
          simp
        · rw [hput _ hcol]
          exact hpresent (Or.inl rfl)
      obtain ⟨w, hw⟩ := Option.ne_none_iff_exists'.mp hsome
      rw [entriesOf_lost hw (removeEntry_metaCol hw h)]
      simp
    · rw [entriesOf_congr (removeEntry_of_ne (fun hcol => heq (metaCol_inj hcol)) h)]
      simp [heq]
  · exact removeEntry_of_notMem ((hput _ hne).trans hw) hmem h
  · rw [removeEntry_of_ne hc h, hput c hc']

/-- A list of chunks in the place of the listing of the source is read, and stays as it
is. -/
theorem Relisted.row_eq_of_chunks {f source q : Bytes} {k : ℕ}
    (h : Relisted R R' f source target v) (hsource : IsFolderPath source) (hf : IsPath f)
    (hq : IsPath q) (hmeta : q ≠ ascii "metadata") (htarget : ¬ColumnOf q (metaCol target))
    (hchunks : Chunks R q k) : ∀ c, ColumnOf q c → R' c = R c := by
  intro c hc
  have hct : c ≠ metaCol target := fun heq => htarget (heq ▸ hc)
  by_cases hcs : c = metaCol source
  · obtain ⟨hsne, rfl⟩ : source ≠ [] ∧ q = source :=
      (columnOf_metaCol hsource hq (hcs ▸ hc)).resolve_right fun hand => hmeta hand.2
    have hlist := hchunks.list
    rw [← hq.metaCol_eq] at hlist
    rw [hcs, hlist]
    exact h.lists (hcs ▸ hct) _ hlist
      (notMem_split_chunkNames hq.notMem_comma hf.notMem_dash hchunks.pos)
  · exact h.outside c hcs hct

/-- The file is moved, and then listed elsewhere. -/
theorem fileMoved_of_relocated {T : Row} {source m : Bytes}
    (hfolders : ∀ q, IsPath q → R q = some kvFolder → ListsChildren R q)
    (hfiles : ∀ q, IsPath q → R q = some kvFile → ∃ n, Chunks R q n)
    (hmeta : ¬Live R (ascii "metadata")) (hsource : IsFolderPath source)
    (hm : isValidName m = true) (hfile : R (inFolder source m) = some kvFile)
    (htarget : IsFolderPath target) (hex : Existing R target) (hlist : R (metaCol target) ≠ none)
    (hv : IsPath v) (hfree : ¬Live R v) (hvmeta : v ≠ ascii "metadata")
    (hch : Chunks R (inFolder source m) n) (hmoved : Relocated R T (inFolder source m) v n)
    (hlisted : Relisted T R' (inFolder source m) source target v) :
    FileMoved R R' (inFolder source m) target v n := by
  have hf := IsPath.inFolder hsource hm
  have hffolder : R (inFolder source m) ≠ some kvFolder := by
    rw [hfile]
    decide
  have hfmeta : inFolder source m ≠ ascii "metadata" := fun heq => hmeta (heq ▸ Or.inl hfile)
  have hvfolder : R v ≠ some kvFolder := fun h => hfree (Or.inr h)
  have hvf : v ≠ inFolder source m := fun heq => hfree (heq ▸ Or.inl hfile)
  -- the listing of a folder that is there is not touched by the move itself
  have hT : ∀ folder, IsFolderPath folder → Existing R folder →
      T (metaCol folder) = R (metaCol folder) := fun folder hfolder hfex =>
    hmoved.outside _ (not_columnOf_metaCol hfolder hfex hf hffolder hfmeta)
      (not_columnOf_metaCol hfolder hfex hv hvfolder hvmeta)
  have hft : ¬ColumnOf (inFolder source m) (metaCol target) :=
    not_columnOf_metaCol htarget hex hf hffolder hfmeta
  have hvt : ¬ColumnOf v (metaCol target) := not_columnOf_metaCol htarget hex hv hvfolder hvmeta
  have hfs : ¬ColumnOf (inFolder source m) (metaCol source) := by
    intro hcol
    rcases columnOf_metaCol hsource hf hcol with ⟨-, heq⟩ | ⟨-, heq⟩
    · exact inFolder_ne_folder (isValidName_ne_nil hm) heq
    · exact hfmeta heq
  have hvcols := hlisted.row_eq_of_chunks hsource hf hv hvmeta hvt (hmoved.chunks hch)
  have hfcols : ∀ c, ColumnOf (inFolder source m) c → R' c = T c := fun c hc =>
    hlisted.outside c (fun heq => hfs (heq ▸ hc)) fun heq => hft (heq ▸ hc)
  have hvbytes := (hmoved.chunks hch).bytesOf_congr hv.notMem_comma hvcols
  refine ⟨(hvcols v (ColumnOf.refl v)).trans hmoved.marker, (hmoved.chunks hch).congr hvcols,
    hvbytes.trans (hmoved.bytes hch hf.notMem_comma hv.notMem_comma), ⟨?_, ?_, ?_⟩, ?_, ?_⟩
  · exact (hfcols _ (ColumnOf.refl _)).trans hmoved.gone_marker
  · exact (hfcols _ (columnOf_metadata _)).trans hmoved.gone_list
  · exact fun i hi => (hfcols _ (columnOf_contentCol _ _)).trans (hmoved.gone_contents i hi)
  · intro folder hfolder hfex hpresent
    rw [beforeLast_inFolder hm] at hpresent ⊢
    have hsome : folder = source ∨ folder = target → T (metaCol folder) ≠ none := by
      rw [hT folder hfolder hfex]
      rintro (rfl | rfl)
      · rcases hfolder with hroot | hpath
        · exact hpresent rfl hroot
        · -- a live folder has the file on its listing
          have hlists := hfolders folder hpath (hfex.resolve_left hpath.ne_nil)
          have hmem := (hlists.mem_iff _).mpr ⟨m, hm, rfl, Or.inl hfile⟩
          obtain ⟨-, w, hw, -⟩ := mem_entriesOf.mp hmem
          rw [hw]
          simp
      · exact hlist
    rw [hlisted.listings folder hsome, entriesOf_congr (hT folder hfolder hfex), List.filter_append]
    congr 1
    split_ifs
    · simp [hvf]
    · rfl
  · intro q hq hlive hqf c hc
    have hqv : q ≠ v := fun heq => hfree (heq ▸ hlive)
    have hqmeta : q ≠ ascii "metadata" := fun heq => hmeta (heq ▸ hlive)
    have hTq : ∀ c', ColumnOf q c' → T c' = R c' := fun c' hc' => hmoved.outside c'
      (fun hcf => hqf (ColumnOf.eq hq.notMem_dash hf.notMem_dash hc' hcf))
      fun hcv => hqv (ColumnOf.eq hq.notMem_dash hv.notMem_dash hc' hcv)
    have hmetaq : ∀ folder, IsFolderPath folder → c = metaCol folder → q = folder := by
      rintro folder hfolder rfl
      rcases columnOf_metaCol hfolder hq hc with ⟨-, heq⟩ | ⟨-, heq⟩
      · exact heq
      · exact absurd heq hqmeta
    rw [beforeLast_inFolder hm, ← hTq c hc]
    rcases hlive with hqfile | hqfolder
    · obtain ⟨k, hqch⟩ := hfiles q hq hqfile
      refine Or.inl (hlisted.row_eq_of_chunks hsource hf hq hqmeta (fun hcol => ?_)
        (hqch.congr hTq) c hc)
      have hne : R q ≠ some kvFolder := by
        rw [hqfile]
        decide
      exact not_columnOf_metaCol htarget hex hq hne hqmeta hcol
    · by_cases hct : c = metaCol target
      · have heq := hmetaq target htarget hct
        exact Or.inr ⟨hqfolder, heq ▸ hct, Or.inl heq⟩
      · by_cases hcs : c = metaCol source
        · have heq := hmetaq source hsource hcs
          exact Or.inr ⟨hqfolder, heq ▸ hcs, Or.inr heq⟩
        · exact Or.inl (hlisted.outside c hcs hct)

/-- **A file that is moved keeps its content, and nothing is overwritten.** -/
theorem moveFile_keeps (master : Master) {kvs : Tablet}
    (hfolders : ∀ q, IsPath q → kvs.row b q = some kvFolder → ListsChildren (kvs.row b) q)
    (hfiles : ∀ q, IsPath q → kvs.row b q = some kvFile → ∃ n, Chunks (kvs.row b) q n)
    (hnames : NoErrPaths (kvs.row b)) (hmeta : ¬Live (kvs.row b) (ascii "metadata"))
    (hf : IsPath f) (hfile : kvs.row b f = some kvFile) (htarget : IsFolderPath target)
    (hex : Existing (kvs.row b) target) (hlist : kvs.row b (metaCol target) ≠ none) :
    ∃ fuel v s, (moveFile b fuel f target).run (Call.exec master) kvs = (.ok v, s) ∧
      FreeIn (kvs.row b) target f v ∧
      (v ≠ ascii "metadata" → ∃ n, FileMoved (kvs.row b) (s.row b) f target v n) := by
  obtain ⟨source, m, hsource, hm, rfl⟩ := hf.exists_inFolder
  obtain ⟨n, hch⟩ := hfiles _ hf hfile
  obtain ⟨fuel, v, hv⟩ := freeTarget_ends master kvs b target (leafBase m) (leafExt m)
    (inFolder target m)
  obtain ⟨-, hfree, hor⟩ := run_freeTarget hv
  obtain ⟨m', hm', rfl⟩ := exists_name_of_freeTarget hm hv
  have hvpath := IsPath.inFolder htarget hm'
  have hne : inFolder source m ≠ inFolder target m' := fun heq => hfree (heq ▸ Or.inl hfile)
  obtain ⟨t, ht, hmoved⟩ := @run_relocateFile master kvs b _ _ n hf hvpath hne
    (hnames _ hf (Or.inl hfile)) hch
  obtain ⟨s, hs, -⟩ := @run_removeEntry b master (t.put b (metaCol target) (joinStorage
    (splitStringStorage (t.text b (metaCol target)) ++ [inFolder target m']))) source
    (inFolder source m)
  refine ⟨fuel, inFolder target m', s, ?_, ⟨⟨m', hm', rfl, ?_⟩, hfree⟩, fun hvmeta => ⟨n, ?_⟩⟩
  · rw [moveFile, beforeLast_inFolder hm, afterLast_inFolder hm, Prog.run_bind_of_ok _ hv,
      Prog.run_bind_of_ok _ ht, run_Get_bind, run_Put_bind, Prog.run_bind_of_ok _ hs]
    rfl
  · rw [afterLast_inFolder hm]
    rcases hor with heq | ⟨i, heq⟩
    · rw [inFolder_inj heq]
    · rw [inFolder_inj heq]
      exact extension_leaf hm i
  · refine fileMoved_of_relocated hfolders hfiles hmeta hsource hm hfile htarget hex hlist hvpath
      hfree hvmeta hch hmoved ?_
    exact relisted_of_run hvpath.notMem_comma hvpath.ne_nil hs

/-- The file of the folder is moved to the root. -/
theorem noteInFolder_moved : ∃ fuel v s,
    (moveFile annsRow fuel (ascii "a/x") []).run (Call.exec Master.first) noteInFolder =
        (.ok v, s) ∧
      FreeIn (noteInFolder.row annsRow) [] (ascii "a/x") v ∧
      (v ≠ ascii "metadata" →
        ∃ n, FileMoved (noteInFolder.row annsRow) (s.row annsRow) (ascii "a/x") [] v n) := by
  refine moveFile_keeps Master.first (fun q _ hq => listsChildren_noteInFolder (Or.inr hq))
    (fun q _ hq => ⟨1, chunks_noteInFolder hq⟩) noErrPaths_noteInFolder ?_ (by decide)
    (by decide +kernel) (Or.inl rfl) (Or.inl rfl) (by decide +kernel)
  exact fun hlive => absurd (live_noteInFolder.mp hlive) (by decide)

end MoveFile

end PennCloud
