import PennCloud.Frontend.Storage.Contents

/-!
# Deleting

`deleteRec` looks at a path: at a file, it deletes what the list of chunks names, and
then its columns; of a folder it leaves the mark, deletes the listing, and goes on
with everything that was on it. It is a walk (`PennCloud.recursion_deleteRec`), and
what it does to the row at each path is said by `PennCloud.row_deleteLook`.
-/

namespace PennCloud

open Wire Calls Text

variable {master : Master} {kvs : Tablet} {b : Bytes}

/-! ### What one path does to the row -/

/-- The row without some of its columns. -/
def Row.without (R : Row) (cols : List Bytes) : Row := fun c =>
  if cols.contains c then none else R c

theorem Row.without_of_mem {R : Row} {cols : List Bytes} {c : Bytes} (h : c ∈ cols) :
    R.without cols c = none := if_pos (List.contains_iff_mem.mpr h)

theorem Row.without_of_notMem {R : Row} {cols : List Bytes} {c : Bytes} (h : c ∉ cols) :
    R.without cols c = R c := if_neg fun hc => h (List.contains_iff_mem.mp hc)

theorem Row.without_append (R : Row) (cols cols' : List Bytes) :
    (R.without cols).without cols' = R.without (cols ++ cols') := by
  funext c
  by_cases hmem : c ∈ cols'
  · rw [Row.without_of_mem hmem, Row.without_of_mem (List.mem_append_right cols hmem)]
  · rw [Row.without_of_notMem hmem]
    by_cases hmem' : c ∈ cols
    · rw [Row.without_of_mem hmem', Row.without_of_mem (List.mem_append_left cols' hmem')]
    · rw [Row.without_of_notMem hmem', Row.without_of_notMem fun h =>
        (List.mem_append.mp h).elim hmem' hmem]

theorem Tablet.row_delete_eq (kvs : Tablet) (b c : Bytes) :
    (kvs.delete b c).row b = (kvs.row b).without [c] := by
  rw [Tablet.row_delete]
  funext c'
  by_cases h : c' = c
  · rw [h, Function.update_self, Row.without_of_mem List.mem_cons_self]
  · rw [Function.update_of_ne h, Row.without_of_notMem fun hm => h (List.mem_singleton.mp hm)]

/-- The entries of the list at a path, as far as deletion goes by them: a list that is
empty or begins with `ERR` has none. -/
def listRead (R : Row) (q : Bytes) : List Bytes :=
  match R (q ++ ascii "-metadata") with
  | none => []
  | some v => if v ≠ [] ∧ isErr v = false then splitStringStorage v else []

theorem listRead_of_text {q : Bytes}
    (h : kvs.text b (q ++ ascii "-metadata") ≠ [] ∧
      isErr (kvs.text b (q ++ ascii "-metadata")) = false) :
    listRead (kvs.row b) q = splitStringStorage (kvs.text b (q ++ ascii "-metadata")) := by
  rw [listRead, (Tablet.text_eq_iff h.2).mp rfl]
  exact if_pos h

theorem listRead_of_not_text {q : Bytes}
    (h : ¬(kvs.text b (q ++ ascii "-metadata") ≠ [] ∧
      isErr (kvs.text b (q ++ ascii "-metadata")) = false)) :
    listRead (kvs.row b) q = [] := by
  rw [listRead]
  rcases hv : kvs.row b (q ++ ascii "-metadata") with _ | v
  · rfl
  · rw [Tablet.text_of_row hv] at h
    exact if_neg h

/-- The columns that go with a file. -/
def fileColumns (R : Row) (q : Bytes) : List Bytes :=
  (listRead R q).map (· ++ ascii "-content") ++
    (if listRead R q = [] then [] else [q ++ ascii "-metadata"]) ++
      [q ++ ascii "-content", q]

/-- The columns that are deleted with an item. -/
def deletedColumns (R : Row) (q : Bytes) : List Bytes :=
  if R q = some kvFolder then [q ++ ascii "-metadata"] else fileColumns R q

/-- The loop over the chunks deletes their contents. -/
theorem run_deleteContents (chunks : List Bytes) :
    ∃ t : Tablet, (Prog.each (fun chunk => do
        let _ ← Delete b (chunk ++ ascii "-content")
        return ()) chunks).run (Call.exec master) kvs = (.ok (), t) ∧
      t.row b = (kvs.row b).without (chunks.map (· ++ ascii "-content")) := by
  induction chunks generalizing kvs with
  | nil => exact ⟨kvs, rfl, rfl⟩
  | cons chunk chunks ih =>
    obtain ⟨t, ht, hrow⟩ := @ih (kvs.delete b (chunk ++ ascii "-content"))
    refine ⟨t, ht, ?_⟩
    rw [hrow, List.map_cons, Tablet.row_delete_eq, Row.without_append, List.singleton_append]

theorem run_deleteChunks (q : Bytes) :
    ∃ t : Tablet, (deleteChunks b q).run (Call.exec master) kvs = (.ok (), t) ∧
      t.row b = (kvs.row b).without ((listRead (kvs.row b) q).map (· ++ ascii "-content") ++
        if listRead (kvs.row b) q = [] then [] else [q ++ ascii "-metadata"]) := by
  rw [deleteChunks, run_Get_bind]
  split_ifs with hlist hnil hnil
  · rw [listRead_of_text hlist] at hnil
    exact absurd hnil (splitStringStorage_ne_nil _)
  · obtain ⟨t, ht, hrow⟩ := @run_deleteContents master kvs b
      (splitStringStorage (kvs.text b (q ++ ascii "-metadata")))
    refine ⟨t.delete b (q ++ ascii "-metadata"), ?_, ?_⟩
    · rw [Prog.run_bind_of_ok _ ht, run_Delete_bind]
      rfl
    · rw [Tablet.row_delete_eq, hrow, Row.without_append, listRead_of_text hlist]
  · refine ⟨kvs, rfl, ?_⟩
    rw [listRead_of_not_text hlist]
    rfl
  · exact absurd (listRead_of_not_text hlist) hnil

/-- What is not a folder is deleted as a file. -/
theorem run_deleteRec_file (fuel : ℕ) {q : Bytes} (hq : kvs.row b q ≠ some kvFolder) :
    ∃ t : Tablet, (deleteRec b (fuel + 1) q).run (Call.exec master) kvs = (.ok (), t) ∧
      t.row b = (kvs.row b).without (fileColumns (kvs.row b) q) := by
  have hmarker : kvs.text b q ≠ kvFolder := fun ht =>
    hq ((Tablet.text_eq_iff isErr_kvFolder).mp ht)
  obtain ⟨t, ht, hrow⟩ := @run_deleteChunks master kvs b q
  refine ⟨(t.delete b (q ++ ascii "-content")).delete b q, ?_, ?_⟩
  · rw [deleteRec, run_Get_bind, if_pos hmarker, Prog.run_bind_of_ok _ ht, run_Delete_bind,
      run_Delete_bind]
    rfl
  · rw [Tablet.row_delete_eq, Tablet.row_delete_eq, hrow, Row.without_append, Row.without_append,
      fileColumns]
    simp only [List.append_assoc, List.cons_append, List.nil_append]

/-! ### Deleting as a walk -/

/-- What looking at a path does. -/
def deleteLook (master : Master) (b : Bytes) : Look Abort Tablet Bytes := fun q kvs =>
  if kvs.row b q = some kvFolder then
    (.ok (listRead (kvs.row b) q), (kvs.put b q delKvFolder).delete b (q ++ ascii "-metadata"))
  else (.ok [], ((deleteRec b 1 q).run (Call.exec master) kvs).2)

/-- `deleteRec` is a walk. -/
theorem recursion_deleteRec (master : Master) (b : Bytes) :
    Recursion (Call.exec master) (deleteLook master b) (deleteRec b) := by
  refine ⟨fun q kvs t h => absurd (Prod.mk.inj h).1 (by simp), fun fuel q kvs => ?_⟩
  rw [deleteLook]
  split_ifs with hq
  · have hne : q ++ ascii "-metadata" ≠ q := fun heq =>
      absurd (List.append_right_eq_self.mp heq) (by decide)
    have hread : listRead ((kvs.put b q delKvFolder).row b) q = listRead (kvs.row b) q := by
      rw [listRead, listRead, Tablet.row_put, Function.update_of_ne hne]
    rw [deleteRec, run_Get_bind, if_neg (not_not.mpr (Tablet.text_of_row hq)), run_Put_bind,
      run_Get_bind, run_Delete_bind]
    split_ifs with htext
    · rw [← hread, listRead_of_text htext]
    · rw [← hread, listRead_of_not_text htext]
      rfl
  · obtain ⟨t, ht, -⟩ := @run_deleteRec_file master kvs b 0 q hq
    -- the rounds are not needed for a file
    have hsame : (deleteRec b (fuel + 1) q).run (Call.exec master) kvs =
        (deleteRec b 1 q).run (Call.exec master) kvs := by
      have hmarker : kvs.text b q ≠ kvFolder := fun ht =>
        hq ((Tablet.text_eq_iff isErr_kvFolder).mp ht)
      rw [deleteRec, deleteRec, run_Get_bind, run_Get_bind, if_pos hmarker, if_pos hmarker]
    rw [hsame, ht]
    rfl

/-- What looking at a path does to the row: a folder is closed, and a file is gone. -/
theorem row_deleteLook {q : Bytes} {ys : List Bytes} {t : Tablet}
    (h : deleteLook master b q kvs = (.ok ys, t)) :
    (kvs.row b q = some kvFolder ∧ ys = listRead (kvs.row b) q ∧ t.row b = closed (kvs.row b) q) ∨
      (kvs.row b q ≠ some kvFolder ∧ ys = [] ∧
        t.row b = (kvs.row b).without (fileColumns (kvs.row b) q)) := by
  rw [deleteLook] at h
  split_ifs at h with hq
  · obtain ⟨hys, rfl⟩ := Prod.mk.inj h
    refine Or.inl ⟨hq, (Except.ok.inj hys).symm, ?_⟩
    rw [Tablet.row_delete, Tablet.row_put, closed]
  · obtain ⟨hys, rfl⟩ := Prod.mk.inj h
    obtain ⟨t, ht, hrow⟩ := @run_deleteRec_file master kvs b 0 q hq
    refine Or.inr ⟨hq, (Except.ok.inj hys).symm, ?_⟩
    rw [ht]
    exact hrow

/-! ### The listing of the parent -/

section Listing

variable {folder q w : Bytes} {ys : List Bytes} {t : Tablet}

/-- Looking at `q` leaves the listing of a folder alone: `q` is not kept in its place,
and is not the folder, unless there is nothing to read in it. -/
def SparesListing (b folder q : Bytes) (kvs : Tablet) : Prop :=
  q ≠ metaCol folder ∧ (q ++ ascii "-metadata" = metaCol folder →
    kvs.row b q ≠ some kvFolder ∧ listRead (kvs.row b) q = [])

/-- The listing that held `w` is lost. -/
def Lost (b folder w : Bytes) (kvs : Tablet) : Prop :=
  kvs.row b (metaCol folder) = none ∨
    (w = kvFolder ∧ kvs.row b (metaCol folder) = some delKvFolder)

/-- A listing is one of the columns of a file in two ways only. -/
theorem metaCol_mem_fileColumns {R : Row} : metaCol folder ∈ fileColumns R q ↔
    metaCol folder = q ∨ (metaCol folder = q ++ ascii "-metadata" ∧ listRead R q ≠ []) := by
  have hcontent : ∀ c, metaCol folder ≠ c ++ ascii "-content" := fun c heq =>
    not_isContent_metaCol folder (heq ▸ isContent_append c)
  rw [fileColumns, List.mem_append, List.mem_append, List.mem_map]
  constructor
  · rintro ((⟨c, -, heq⟩ | hmem) | hmem)
    · exact absurd heq.symm (hcontent c)
    · split_ifs at hmem with hnil
      · exact absurd hmem List.not_mem_nil
      · exact Or.inr ⟨List.mem_singleton.mp hmem, hnil⟩
    · rcases List.mem_cons.mp hmem with heq | hmem
      · exact absurd heq (hcontent q)
      · exact Or.inl (List.mem_singleton.mp hmem)
  · rintro (heq | ⟨heq, hne⟩)
    · exact Or.inr (heq ▸ List.mem_cons_of_mem _ List.mem_cons_self)
    · rw [if_neg hne]
      exact Or.inl (Or.inr (List.mem_singleton.mpr heq))

theorem closed_self {R : Row} : closed R q q = some delKvFolder := by
  have hne : q ≠ q ++ ascii "-metadata" := fun heq =>
    absurd (List.append_right_eq_self.mp heq.symm) (by decide)
  rw [closed, Function.update_of_ne hne, Function.update_self]

theorem closed_metadata {R : Row} : closed R q (q ++ ascii "-metadata") = none :=
  Function.update_self ..

theorem SparesListing.row_eq (h : SparesListing b folder q kvs)
    (hlook : deleteLook master b q kvs = (.ok ys, t)) :
    t.row b (metaCol folder) = kvs.row b (metaCol folder) := by
  rcases row_deleteLook hlook with ⟨hq, -, hrow⟩ | ⟨hq, -, hrow⟩
  · rw [hrow]
    exact closed_of_ne h.1.symm fun heq => (h.2 heq.symm).1 hq
  · rw [hrow]
    refine Row.without_of_notMem fun hmem => ?_
    rcases metaCol_mem_fileColumns.mp hmem with heq | ⟨heq, hne⟩
    · exact h.1 heq.symm
    · exact hne (h.2 heq.symm).2

theorem lost_of_not_sparesListing (hrow : kvs.row b (metaCol folder) = some w)
    (h : ¬SparesListing b folder q kvs) (hlook : deleteLook master b q kvs = (.ok ys, t)) :
    Lost b folder w t := by
  have hcases : q = metaCol folder ∨ (q ++ ascii "-metadata" = metaCol folder ∧
      (kvs.row b q = some kvFolder ∨ listRead (kvs.row b) q ≠ [])) := by
    by_contra hno
    obtain ⟨h1, h2⟩ := not_or.mp hno
    exact h ⟨h1, fun heq => (not_or.mp fun hor => h2 ⟨heq, hor⟩).imp_right not_not.mp⟩
  rcases row_deleteLook hlook with ⟨hq, -, ht⟩ | ⟨hq, -, ht⟩
  · rcases hcases with rfl | ⟨heq, -⟩
    · refine Or.inr ⟨Option.some.inj (hrow.symm.trans hq), ?_⟩
      rw [ht, closed_self]
    · refine Or.inl ?_
      rw [ht, ← heq, closed_metadata]
  · refine Or.inl ?_
    rw [ht]
    refine Row.without_of_mem (metaCol_mem_fileColumns.mpr ?_)
    rcases hcases with heq | ⟨heq, hor⟩
    · exact Or.inl heq.symm
    · exact Or.inr ⟨heq.symm, hor.resolve_left hq⟩

/-- A listing that is lost does not come back. -/
theorem Lost.deleteLook (h : Lost b folder w kvs)
    (hlook : deleteLook master b q kvs = (.ok ys, t)) : Lost b folder w t := by
  rcases row_deleteLook hlook with ⟨hq, -, ht⟩ | ⟨-, -, ht⟩
  · by_cases hself : metaCol folder = q
    · rcases h with h | ⟨-, h⟩
      · rw [hself, hq] at h
        exact absurd h (by simp)
      · rw [hself, hq] at h
        exact absurd (Option.some.inj h) (by decide)
    · by_cases hmeta : metaCol folder = q ++ ascii "-metadata"
      · rw [Lost, ht, hmeta]
        exact Or.inl closed_metadata
      · rw [Lost, ht, closed_of_ne hself hmeta]
        exact h
  · by_cases hmem : metaCol folder ∈ fileColumns (kvs.row b) q
    · rw [Lost, ht]
      exact Or.inl (Row.without_of_mem hmem)
    · rw [Lost, ht, Row.without_of_notMem hmem]
      exact h

/-- **The deletion of `p` spares a listing**: nothing it comes to, along the listings
of the folders, is the folder or is kept in the place of its listing. -/
def SparedBy (master : Master) (b folder p : Bytes) (kvs : Tablet) : Prop :=
  ∃ t, Walk (deleteLook master b) (SparesListing b folder) [p] kvs t

theorem sparedBy_iff {fuel : ℕ} {p : Bytes} (hrow : kvs.row b (metaCol folder) = some w)
    (hrun : (deleteRec b fuel p).run (Call.exec master) kvs = (.ok (), t)) :
    (SparedBy master b folder p kvs ↔ t.row b (metaCol folder) = some w) ∧
      (t.row b (metaCol folder) = some w ∨ Lost b folder w t) := by
  have heach : (Prog.each (deleteRec b fuel) [p]).run (Call.exec master) kvs = (.ok (), t) :=
    Prog.run_bind_of_ok _ hrun
  have hwalk := (recursion_deleteRec master b).run_iff.mp ⟨fuel, heach⟩
  have hnot : ∀ s : Tablet, s.row b (metaCol folder) = some w → ¬Lost b folder w s := by
    rintro s hs (hl | ⟨rfl, hl⟩)
    · exact absurd (hs.symm.trans hl) (by simp)
    · exact absurd (Option.some.inj (hs.symm.trans hl)) (by decide)
  have hstep : ∀ q (s : Tablet) ys s', deleteLook master b q s = (.ok ys, s') →
      s.row b (metaCol folder) = some w →
        (SparesListing b folder q s ∧ s'.row b (metaCol folder) = some w) ∨
          Lost b folder w s' := by
    intro q s ys s' hlook hs
    by_cases hspares : SparesListing b folder q s
    · exact Or.inl ⟨hspares, (hspares.row_eq hlook).trans hs⟩
    · exact Or.inr (lost_of_not_sparesListing hs hspares hlook)
  refine ⟨⟨?_, fun ht => ⟨t, ?_⟩⟩, ?_⟩
  · rintro ⟨t', ht'⟩
    obtain rfl := ht'.unique hwalk
    exact ht'.inv (I := fun _ s => s.row b (metaCol folder) = some w)
      (fun q _ s ys s' hs hspares hlook => (hspares.row_eq hlook).trans hs) hrow
  · exact hwalk.of_kept (P := fun s => s.row b (metaCol folder) = some w)
      (B := Lost b folder w) hstep (fun _ _ _ _ hlook hl => hl.deleteLook hlook) hnot hrow ht
  · exact hwalk.inv
      (I := fun _ s => s.row b (metaCol folder) = some w ∨ Lost b folder w s)
      (fun q _ s ys s' hs _ hlook =>
        hs.elim (fun hs => (hstep q s ys s' hlook hs).imp_left And.right)
        fun hl => Or.inr (hl.deleteLook hlook)) (Or.inl hrow)

/-- The entries of a listing without the item `p`. -/
def entriesBut (p v : Bytes) : List Bytes := (splitStringStorage v).filter fun e => e ≠ p

/-- The entries that `webStorageDelete` keeps: those in which the name of the item does
not occur. -/
def entriesWithout (p v : Bytes) : List Bytes :=
  (splitStringStorage v).filter fun e => (cut (afterLast 47 p) e).isNone

theorem mem_entriesWithout {p v e : Bytes} : e ∈ entriesWithout p v ↔
    e ∈ splitStringStorage v ∧ ¬afterLast 47 p <:+: e := by
  rw [entriesWithout, List.mem_filter, ← isSome_cut, Bool.not_eq_true, Option.isSome_eq_false_iff]

/-- The name of an item occurs in its path. -/
theorem afterLast_within (p : Bytes) : afterLast 47 p <:+: p := by
  by_cases h : 47 ∈ p
  · have heq := beforeLast_append_afterLast h
    exact ⟨beforeLast 47 p ++ [47], [], by simpa using heq⟩
  · rw [afterLast_of_notMem h]

/-- What is kept is listed, and is not the item. -/
theorem entriesWithout_subset {p v e : Bytes} (h : e ∈ entriesWithout p v) :
    e ∈ entriesBut p v := by
  obtain ⟨hmem, hno⟩ := mem_entriesWithout.mp h
  refine List.mem_filter.mpr ⟨hmem, decide_eq_true ?_⟩
  rintro rfl
  exact hno (afterLast_within _)

/-- The two lists are the same when the name occurs in no other entry. -/
theorem entriesWithout_eq_iff {p v : Bytes} : entriesWithout p v = entriesBut p v ↔
    ∀ e ∈ splitStringStorage v, afterLast 47 p <:+: e → e = p := by
  constructor
  · intro heq e he hin
    by_contra hne
    have hmem : e ∈ entriesBut p v := List.mem_filter.mpr ⟨he, decide_eq_true hne⟩
    rw [← heq] at hmem
    exact (mem_entriesWithout.mp hmem).2 hin
  · intro h
    refine List.filter_congr fun e he => ?_
    rw [Bool.eq_iff_iff, Option.isNone_iff_eq_none, ← Option.not_isSome_iff_eq_none, isSome_cut,
      decide_eq_true_iff]
    refine not_congr ⟨h e he, ?_⟩
    rintro rfl
    exact afterLast_within _

theorem notMem_entriesBut {p v e : Bytes} (h : e ∈ entriesBut p v) : 44 ∉ e :=
  notMem_comma_of_mem (List.mem_filter.mp h).1

/-- Joined, too, they are the same only then. -/
theorem joinStorage_entriesWithout {p v : Bytes} (hname : afterLast 47 p ≠ []) :
    joinStorage (entriesWithout p v) = joinStorage (entriesBut p v) ↔
      entriesWithout p v = entriesBut p v := by
  refine ⟨fun h => ?_, fun h => h ▸ rfl⟩
  have hcomma : ∀ e ∈ entriesBut p v, 44 ∉ e := fun e => notMem_entriesBut
  by_cases hbut : entriesBut p v = []
  · rw [hbut, List.eq_nil_iff_forall_not_mem]
    intro e he
    exact List.not_mem_nil (hbut ▸ entriesWithout_subset he)
  · have hsplit := congrArg splitStringStorage h
    have hright : splitStringStorage (joinStorage (entriesBut p v)) = entriesBut p v :=
      List.splitOn_intercalate 44 hcomma hbut
    by_cases hwithout : entriesWithout p v = []
    · -- one empty entry, which contains no name
      rw [hwithout, hright] at hsplit
      have hnil : [] ∈ entriesBut p v := hsplit ▸ List.mem_cons_self
      have hin : afterLast 47 p <:+: [] := by
        by_contra hno
        have hmem := mem_entriesWithout.mpr ⟨(List.mem_filter.mp hnil).1, hno⟩
        exact List.not_mem_nil (hwithout ▸ hmem)
      exact absurd (List.infix_nil.mp hin) hname
    · rw [hright] at hsplit
      rw [← hsplit]
      exact (List.splitOn_intercalate 44 (fun e he => hcomma e (entriesWithout_subset he))
        hwithout).symm

/-- A listing that is kept as a marker is not another marker without the item. -/
theorem joinStorage_ne_delKvFolder {p v : Bytes}
    (h : joinStorage (entriesWithout p v) = kvFolder) :
    joinStorage (entriesBut p v) ≠ delKvFolder := by
  intro hbut
  have hne : entriesWithout p v ≠ [] := by
    intro hnil
    rw [hnil] at h
    exact absurd h (by decide)
  have hmem : kvFolder ∈ entriesWithout p v := by
    rw [← mem_split_join (fun e he => notMem_entriesBut (entriesWithout_subset he)) hne, h]
    decide
  have hmem' := entriesWithout_subset hmem
  rw [← mem_split_join (fun e => notMem_entriesBut) (List.ne_nil_of_mem hmem'), hbut] at hmem'
  exact absurd hmem' (by decide)

/-- **When deleting unlists the item and nothing else**: when no other entry of the
listing contains the name of the item, and the deletion spares the listing. -/
theorem listing_webStorageDelete_iff {fuel : ℕ} {p v : Bytes} {page : Page} {s : Tablet}
    (hname : afterLast 47 p ≠ []) (hv : kvs.row b (metaCol (beforeLast 47 p)) = some v)
    (hrun : (webStorageDelete b fuel p).run (Call.exec master) kvs = (.ok (.ok page), s)) :
    s.row b (metaCol (beforeLast 47 p)) = some (joinStorage (entriesBut p v)) ↔
      (∀ e ∈ splitStringStorage v, afterLast 47 p <:+: e → e = p) ∧
        SparedBy master b (beforeLast 47 p) p
          (kvs.put b (metaCol (beforeLast 47 p)) (joinStorage (entriesBut p v))) := by
  have hdelete : (deleteRec b fuel p).run (Call.exec master)
      (kvs.put b (metaCol (beforeLast 47 p)) (joinStorage (entriesWithout p v))) =
        (.ok (), s) := by
    rcases run_delete hrun with ⟨-, href⟩ | hrun'
    · exact absurd rfl (href page)
    · rw [Tablet.text_of_row hv] at hrun'
      exact hrun'
  have hput : (kvs.put b (metaCol (beforeLast 47 p)) (joinStorage (entriesWithout p v))).row b
      (metaCol (beforeLast 47 p)) = some (joinStorage (entriesWithout p v)) := by
    rw [Tablet.row_put, Function.update_self]
  obtain ⟨hiff, hcases⟩ := sparedBy_iff hput hdelete
  rw [← entriesWithout_eq_iff]
  constructor
  · intro hlisting
    have hkept : s.row b (metaCol (beforeLast 47 p)) = some (joinStorage (entriesWithout p v)) := by
      rcases hcases with hkept | hnone | ⟨hmarker, hdel⟩
      · exact hkept
      · exact absurd (hlisting.symm.trans hnone) (by simp)
      · exact absurd (Option.some.inj (hlisting.symm.trans hdel))
          (joinStorage_ne_delKvFolder hmarker)
    have heq := (joinStorage_entriesWithout hname).mp (Option.some.inj (hkept.symm.trans hlisting))
    exact ⟨heq, heq ▸ hiff.mpr hkept⟩
  · rintro ⟨heq, hspared⟩
    rw [← heq] at hspared ⊢
    exact hiff.mp hspared

/-- Two files at the root; the name of one occurs in the path of the other. -/
def twoNotes : Tablet :=
  ((Tablet.put ∅ annsRow (metaCol []) (ascii "a,ab")).put annsRow (ascii "a") kvFile).put annsRow
    (ascii "ab") kvFile

example : entriesWithout (ascii "a") (ascii "a,ab") = [] := by decide +kernel

theorem row_twoNotes : twoNotes.row annsRow (metaCol []) = some (ascii "a,ab") := by
  decide +kernel

/-- What deleting the first of them leaves. -/
def oneNote : Tablet :=
  ((webStorageDelete annsRow 1 (ascii "a")).run (Call.exec Master.first) twoNotes).2

theorem run_twoNotes : (webStorageDelete annsRow 1 (ascii "a")).run (Call.exec Master.first)
    twoNotes = (.ok (.ok (.deleted .file (ascii "a") [])), oneNote) := by
  have hok : ((webStorageDelete annsRow 1 (ascii "a")).run (Call.exec Master.first) twoNotes).1 =
      .ok (.ok (.deleted .file (ascii "a") [])) := by decide +kernel
  exact Prod.ext hok rfl

/-- **Deleting a file unlists another one**, whose name contains the name of the first. -/
theorem delete_unlists_another :
    ((webStorageDelete annsRow 1 (ascii "a")).run (Call.exec Master.first) twoNotes).1 =
      .ok (.ok (.deleted .file (ascii "a") [])) ∧
    ascii "a" ∈ splitStringStorage (ascii "a,ab") ∧
    entriesBut (ascii "a") (ascii "a,ab") = [ascii "ab"] ∧
    oneNote.row annsRow (metaCol []) = some [] ∧
    oneNote.row annsRow (metaCol (beforeLast 47 (ascii "a"))) ≠
      some (joinStorage (entriesBut (ascii "a") (ascii "a,ab"))) ∧
    oneNote.row annsRow (ascii "ab") = some kvFile := by
  decide +kernel

/-- The name occurs in the other entry. -/
theorem not_exact_twoNotes :
    ¬((∀ e ∈ splitStringStorage (ascii "a,ab"), afterLast 47 (ascii "a") <:+: e → e = ascii "a") ∧
      SparedBy Master.first annsRow (beforeLast 47 (ascii "a")) (ascii "a")
        (twoNotes.put annsRow (metaCol (beforeLast 47 (ascii "a")))
          (joinStorage (entriesBut (ascii "a") (ascii "a,ab"))))) := by
  rw [← listing_webStorageDelete_iff (by decide) row_twoNotes run_twoNotes]
  decide +kernel

end Listing

/-! ### Deleting in a row in good order -/

section Tree

open scoped Classical in
/-- What is left of a row when the items `V` have been looked at: the mark of the folders
among them, and nothing else of any of them. -/
noncomputable def cleared (R : Row) (V : Set Bytes) : Row := fun c =>
  if c ∈ V ∧ R c = some kvFolder then some delKvFolder
  else if ∃ q ∈ V, c ∈ deletedColumns R q then none
  else R c

variable {R : Row} {V : Set Bytes} {p q x c : Bytes}

theorem cleared_empty (R : Row) : cleared R ∅ = R := by
  funext c
  simp [cleared]

theorem deletedColumns_of_folder (h : R q = some kvFolder) :
    deletedColumns R q = [q ++ ascii "-metadata"] := if_pos h

theorem deletedColumns_of_file (h : R q ≠ some kvFolder) : deletedColumns R q = fileColumns R q :=
  if_neg h

/-- What is deleted with an item are columns of the item. -/
theorem columnOf_of_mem_deletedColumns (h : R q ≠ some kvFolder → OwnChunks R q)
    (hc : c ∈ deletedColumns R q) : ColumnOf q c := by
  by_cases hq : R q = some kvFolder
  · rw [deletedColumns_of_folder hq, List.mem_singleton] at hc
    exact hc ▸ columnOf_metadata q
  · rw [deletedColumns_of_file hq, fileColumns, List.mem_append, List.mem_append,
      List.mem_map] at hc
    rcases hc with (⟨chunk, hchunk, rfl⟩ | hc) | hc
    · rw [listRead] at hchunk
      split at hchunk
      · exact absurd hchunk List.not_mem_nil
      · next v hv =>
        split_ifs at hchunk with hread
        · obtain ⟨t, rfl⟩ := h hq v hv hread.1 hread.2 chunk hchunk
          rw [List.append_assoc]
          exact columnOf_dash q _
        · exact absurd hchunk List.not_mem_nil
    · split_ifs at hc
      · exact absurd hc List.not_mem_nil
      · exact List.mem_singleton.mp hc ▸ columnOf_metadata q
    · rcases List.mem_cons.mp hc with rfl | hc
      · exact columnOf_content q
      · exact List.mem_singleton.mp hc ▸ ColumnOf.refl q

/-- Items whose columns are their own. -/
structure OwnColumns (R : Row) (V : Set Bytes) : Prop where
  /-- They are at paths. -/
  path : ∀ q ∈ V, IsPath q
  /-- The lists of chunks are of their own chunks. -/
  chunks : ∀ q ∈ V, R q ≠ some kvFolder → OwnChunks R q

theorem OwnColumns.mono {W : Set Bytes} (h : OwnColumns R W) (hsub : V ⊆ W) : OwnColumns R V :=
  ⟨fun q hq => h.path q (hsub hq), fun q hq => h.chunks q (hsub hq)⟩

/-- A column of an item that was not looked at is as before. -/
theorem cleared_of_columnOf (h : OwnColumns R V) (hx : IsPath x) (hxV : x ∉ V)
    (hc : ColumnOf x c) : cleared R V c = R c := by
  have hown : ∀ q ∈ V, ¬ColumnOf q c := fun q hq hqc =>
    hxV (ColumnOf.eq hx.notMem_dash (h.path q hq).notMem_dash hc hqc ▸ hq)
  rw [cleared, if_neg fun hand => hown c hand.1 (ColumnOf.refl c), if_neg]
  rintro ⟨q, hq, hmem⟩
  exact hown q hq (columnOf_of_mem_deletedColumns (h.chunks q hq) hmem)

/-- What is not a column of any of the items is as before. -/
theorem cleared_of_not_columnOf (h : OwnColumns R V) (hc : ∀ q ∈ V, ¬ColumnOf q c) :
    cleared R V c = R c := by
  rw [cleared, if_neg fun hand => hc c hand.1 (ColumnOf.refl c), if_neg]
  rintro ⟨q, hq, hmem⟩
  exact hc q hq (columnOf_of_mem_deletedColumns (h.chunks q hq) hmem)

theorem cleared_of_none (h : R c = none) : cleared R V c = none := by
  rw [cleared, if_neg (by simp [h]), h, ite_self]

/-- A folder has its mark. -/
theorem cleared_folder (hq : q ∈ V) (hfolder : R q = some kvFolder) :
    cleared R V q = some delKvFolder := if_pos ⟨hq, hfolder⟩

/-- What is deleted with an item is gone. -/
theorem cleared_deleted (h : OwnColumns R V) (hq : q ∈ V) (hc : c ∈ deletedColumns R q) :
    cleared R V c = none := by
  have hown := columnOf_of_mem_deletedColumns (h.chunks q hq) hc
  rw [cleared, if_neg, if_pos ⟨q, hq, hc⟩]
  rintro ⟨hcV, hfolder⟩
  obtain rfl := ColumnOf.eq (h.path q hq).notMem_dash (h.path c hcV).notMem_dash hown
    (ColumnOf.refl c)
  rw [deletedColumns_of_folder hfolder, List.mem_singleton] at hc
  exact absurd (List.append_right_eq_self.mp hc.symm) (by decide)

/-- The lists of an item that was not looked at are as before. -/
theorem listRead_cleared (h : OwnColumns R V) (hx : IsPath x) (hxV : x ∉ V) :
    listRead (cleared R V) x = listRead R x := by
  rw [listRead, listRead, cleared_of_columnOf h hx hxV (columnOf_metadata x)]

/-- Another item matters for its own columns only. -/
theorem cleared_insert_of_ne (hcx : c ≠ x) (hdeleted : c ∉ deletedColumns R x) :
    cleared R (insert x V) c = cleared R V c := by
  have hmark : c ∈ insert x V ∧ R c = some kvFolder ↔ c ∈ V ∧ R c = some kvFolder :=
    and_congr_left' (Set.mem_insert_iff.trans (or_iff_right hcx))
  have hgone : (∃ q ∈ insert x V, c ∈ deletedColumns R q) ↔ ∃ q ∈ V, c ∈ deletedColumns R q :=
    Set.exists_mem_insert.trans (or_iff_right hdeleted)
  rw [cleared, cleared]
  by_cases hm : c ∈ V ∧ R c = some kvFolder
  · rw [if_pos hm, if_pos (hmark.mpr hm)]
  · rw [if_neg hm, if_neg fun h => hm (hmark.mp h)]
    by_cases hg : ∃ q ∈ V, c ∈ deletedColumns R q
    · rw [if_pos hg, if_pos (hgone.mpr hg)]
    · rw [if_neg hg, if_neg fun h => hg (hgone.mp h)]

/-- One folder more. -/
theorem cleared_insert_folder (h : OwnColumns R (insert x V)) (hfolder : R x = some kvFolder) :
    cleared R (insert x V) = closed (cleared R V) x := by
  have hx := Set.mem_insert x V
  funext c
  by_cases hmeta : c = x ++ ascii "-metadata"
  · rw [hmeta, closed_metadata]
    refine cleared_deleted h hx ?_
    rw [deletedColumns_of_folder hfolder]
    exact List.mem_cons_self
  · by_cases hcx : c = x
    · rw [hcx, closed_self]
      exact cleared_folder hx hfolder
    · have hdeleted : c ∉ deletedColumns R x := by
        rw [deletedColumns_of_folder hfolder, List.mem_singleton]
        exact hmeta
      rw [closed_of_ne hcx hmeta, cleared_insert_of_ne hcx hdeleted]

/-- One file more. -/
theorem cleared_insert_file (h : OwnColumns R (insert x V)) (hfile : R x ≠ some kvFolder) :
    cleared R (insert x V) = (cleared R V).without (fileColumns R x) := by
  funext c
  by_cases hmem : c ∈ fileColumns R x
  · rw [Row.without_of_mem hmem]
    refine cleared_deleted h (Set.mem_insert x V) ?_
    rwa [deletedColumns_of_file hfile]
  · have hcx : c ≠ x := by
      rintro rfl
      exact hmem (List.mem_append_right _ (List.mem_cons_of_mem _ List.mem_cons_self))
    have hdeleted : c ∉ deletedColumns R x := by rwa [deletedColumns_of_file hfile]
    rw [Row.without_of_notMem hmem, cleared_insert_of_ne hcx hdeleted]

/-- A row in which everything can be found: folders list their children and files their
chunks, and no path begins with `ERR`. An empty entry on a listing leads to the empty path,
where nothing is kept. -/
structure Findable (R : Row) : Prop where
  /-- The folders. -/
  folders : ∀ q, IsPath q → R q = some kvFolder → ListsChildren R q
  /-- The files. -/
  files : ∀ q, IsPath q → R q = some kvFile → ListsChunks R q
  /-- Every list can be read. -/
  names : NoErrPaths R
  /-- Empty entries. -/
  blanks : ∀ q v, IsPath q → R q = some kvFolder → R (metaCol q) = some v →
    [] ∈ splitStringStorage v → v = [] ∨ Blank R

/-- What is on the listing of a folder: its children, and empty entries. -/
theorem Findable.listRead_folder (h : Findable R) (hq : IsPath q) (hfolder : R q = some kvFolder) :
    (∀ y ∈ listRead R q, (y = [] ∧ Blank R) ∨ y ∈ childrenOf R q) ∧
      (∀ y ∈ childrenOf R q, y ∈ listRead R q) ∧
      ∀ skip : Bytes → Prop, [DecidablePred skip] → (∀ y, skip y ↔ y = [] ∧ Blank R) →
        ((listRead R q).filter fun y => ¬skip y).Nodup := by
  have hlists := h.folders q hq hfolder
  have hmem : ∀ y, y ∈ entriesOf R q ↔ y ∈ childrenOf R q := fun y =>
    (hlists.mem_iff y).trans (mem_childrenOf hq hfolder).symm
  have hlist : (listRead R q).filter (fun e => e ≠ []) = entriesOf R q := by
    rw [listRead, entriesOf, hq.metaCol_eq]
    rcases hv : R (q ++ ascii "-metadata") with _ | v
    · rfl
    · rw [← hq.metaCol_eq] at hv
      by_cases hnil : v = []
      · simp [hnil, splitStringStorage]
      · simp only [if_pos (And.intro hnil (hlists.not_isErr (Or.inr hq) h.names hv))]
  have hblank : ∀ y ∈ listRead R q, y = [] → Blank R := by
    rintro y hy rfl
    rw [listRead] at hy
    split at hy
    · exact absurd hy List.not_mem_nil
    · next v hv =>
      split_ifs at hy with hread
      · rw [← hq.metaCol_eq] at hv
        exact (h.blanks q v hq hfolder hv hy).resolve_left hread.1
      · exact absurd hy List.not_mem_nil
  refine ⟨fun y hy => ?_, fun y hy => ?_, fun skip _ hskip => ?_⟩
  · by_cases hnil : y = []
    · exact Or.inl ⟨hnil, hblank y hy hnil⟩
    · refine Or.inr ((hmem y).mp ?_)
      rw [← hlist]
      exact List.mem_filter.mpr ⟨hy, by simpa using hnil⟩
  · have hmem' := (hmem y).mpr hy
    rw [← hlist] at hmem'
    exact (List.mem_filter.mp hmem').1
  · have hsame : ((listRead R q).filter fun y => ¬skip y) = entriesOf R q := by
      rw [← hlist]
      refine List.filter_congr fun y hy => ?_
      rw [decide_eq_decide, hskip]
      exact not_congr ⟨And.left, fun hnil => ⟨hnil, hblank y hy hnil⟩⟩
    exact hsame ▸ hlists.nodup

/-- What is found from an item has columns of its own. -/
theorem Findable.ownColumns (h : Findable R) (hp : IsPath p) (hlive : Live R p) :
    OwnColumns R (Found (childrenOf R) p) := by
  refine ⟨fun q hq => path_of_found hp hq, fun q hq hfile => ?_⟩
  have hmarker := (live_of_found hlive hq).resolve_right hfile
  exact (h.files q (path_of_found hp hq) hmarker).ownChunks

/-- Looking at a new item of the tree goes on with its children. -/
theorem Findable.looksThrough (h : Findable R) (hp : IsPath p) (hlive : Live R p)
    (master : Master) (b : Bytes) [DecidablePred fun x : Bytes => x = [] ∧ Blank R] :
    LooksThrough (deleteLook master b) (childrenOf R) p (fun x => x = [] ∧ Blank R)
      (fun V s => V ⊆ Found (childrenOf R) p ∧ s.row b = cleared R V) := by
  rintro V x s ⟨hV, hs⟩ hx hxV
  have hsub : insert x V ⊆ Found (childrenOf R) p := Set.insert_subset hx hV
  have hown := h.ownColumns hp hlive
  have hxpath := path_of_found hp hx
  have hmarker : s.row b x = R x := by
    rw [hs, cleared_of_columnOf (hown.mono hV) hxpath hxV (ColumnOf.refl x)]
  have hlist : listRead (s.row b) x = listRead R x := by
    rw [hs, listRead_cleared (hown.mono hV) hxpath hxV]
  rcases hlook : deleteLook master b x s with ⟨e | ys, t⟩
  · rw [deleteLook] at hlook
    split_ifs at hlook <;> exact absurd (Prod.mk.inj hlook).1 (by simp)
  · refine ⟨ys, t, rfl, ?_⟩
    rcases row_deleteLook hlook with ⟨hfolder, rfl, ht⟩ | ⟨hfile, rfl, ht⟩
    · rw [hmarker] at hfolder
      obtain ⟨hys, hnext, hnodup⟩ := h.listRead_folder hxpath hfolder
      rw [hlist]
      refine ⟨⟨hsub, ?_⟩, hys, hnext, hnodup _ fun y => Iff.rfl⟩
      rw [ht, hs, cleared_insert_folder (hown.mono hsub) hfolder]
    · rw [hmarker] at hfile
      refine ⟨⟨hsub, ?_⟩, fun y hy => absurd hy List.not_mem_nil, ?_, List.nodup_nil⟩
      · have hcols : fileColumns (s.row b) x = fileColumns R x := by
          rw [fileColumns, fileColumns, hlist]
        rw [ht, hcols, hs, cleared_insert_file (hown.mono hsub) hfile]
      · exact fun y hy => absurd hy.1 hfile

/-- **What deleting `p` leaves**: of the files in its subtree nothing, of the folders the
mark, and everything else as it was. -/
structure DeletedExactly (R R' : Row) (p : Bytes) : Prop where
  /-- The marker, the list of chunks and the contents of a file are gone. -/
  file : ∀ q ∈ Found (childrenOf R) p, R q = some kvFile →
    R' q = none ∧ R' (q ++ ascii "-metadata") = none ∧
      ∀ v, R (q ++ ascii "-metadata") = some v →
        ∀ chunk ∈ splitStringStorage v, R' (chunk ++ ascii "-content") = none
  /-- A folder has its mark, and no listing. -/
  folder : ∀ q ∈ Found (childrenOf R) p, R q = some kvFolder →
    R' q = some delKvFolder ∧ R' (metaCol q) = none
  /-- Nothing else has changed. -/
  outside : ∀ c, (∀ q ∈ Found (childrenOf R) p, ¬ColumnOf q c) → R' c = R c

theorem Findable.deletedExactly (h : Findable R) (hp : IsPath p) (hlive : Live R p) :
    DeletedExactly R (cleared R (Found (childrenOf R) p)) p := by
  have hown := h.ownColumns hp hlive
  refine ⟨fun q hq hfile => ?_, fun q hq hfolder => ⟨cleared_folder hq hfolder, ?_⟩,
    fun c hc => cleared_of_not_columnOf hown hc⟩
  · have hqpath := path_of_found hp hq
    have hne : R q ≠ some kvFolder := by
      rw [hfile]
      decide
    have hgone : ∀ c ∈ fileColumns R q, cleared R (Found (childrenOf R) p) c = none := by
      intro c hc
      refine cleared_deleted hown hq ?_
      rwa [deletedColumns_of_file hne]
    have hread : ∀ v, R (q ++ ascii "-metadata") = some v →
        listRead R q = splitStringStorage v := by
      intro v hv
      rw [listRead, hv]
      exact if_pos ((h.files q hqpath hfile).not_isErr (h.names q hqpath (Or.inl hfile)) hv)
    refine ⟨hgone q ?_, ?_, fun v hv chunk hchunk => hgone _ ?_⟩
    · exact List.mem_append_right _ (List.mem_cons_of_mem _ List.mem_cons_self)
    · rcases hv : R (q ++ ascii "-metadata") with _ | v
      · exact cleared_of_none hv
      · refine hgone _ (List.mem_append_left _ (List.mem_append_right _ ?_))
        rw [hread v hv, if_neg (splitStringStorage_ne_nil v)]
        exact List.mem_cons_self
    · refine List.mem_append_left _ (List.mem_append_left _ ?_)
      rw [hread v hv]
      exact List.mem_map_of_mem hchunk
  · refine cleared_deleted hown hq ?_
    rw [deletedColumns_of_folder hfolder, (path_of_found hp hq).metaCol_eq]
    exact List.mem_cons_self

/-- An empty entry is nothing to delete. -/
theorem deleteLook_nil {s : Tablet} (hblank : Blank (s.row b)) :
    ∃ s', deleteLook master b [] s = (.ok [], s') ∧ s'.row b = s.row b := by
  have hnil : s.row b [] = none := hblank [] (Or.inl rfl)
  have hread : listRead (s.row b) [] = [] := by
    rw [listRead, List.nil_append, hblank _ (Or.inr (Or.inl rfl))]
  have hfile : s.row b [] ≠ some kvFolder := by simp [hnil]
  rcases hlook : deleteLook master b [] s with ⟨e | ys, t⟩
  · rw [deleteLook, if_neg hfile] at hlook
    exact absurd (Prod.mk.inj hlook).1 (by simp)
  · rcases row_deleteLook hlook with ⟨hfolder, -, -⟩ | ⟨-, rfl, ht⟩
    · exact absurd hfolder hfile
    · refine ⟨t, rfl, ht.trans (funext fun c => ?_)⟩
      by_cases hc : c ∈ fileColumns (s.row b) []
      · rw [Row.without_of_mem hc]
        simp only [fileColumns, hread, List.map_nil, if_true, List.nil_append, List.mem_cons,
          List.not_mem_nil, or_false] at hc
        rcases hc with rfl | rfl
        · exact (hblank _ (Or.inr (Or.inr rfl))).symm
        · exact hnil.symm
      · exact Row.without_of_notMem hc

/-- A subtree is deleted. -/
theorem Findable.walk (h : Findable (kvs.row b)) (hp : IsPath p) (hlive : Live (kvs.row b) p)
    (master : Master) : ∃ t : Tablet, Walk (deleteLook master b) (fun _ _ => True) [p] kvs t ∧
      t.row b = cleared (kvs.row b) (Found (childrenOf (kvs.row b)) p) := by
  classical
  have hno : ∀ q ∈ Found (childrenOf (kvs.row b)) p, ¬(q = [] ∧ Blank (kvs.row b)) :=
    fun q hq hand => (path_of_found hp hq).ne_nil hand.1
  have hskip : ∀ (V : Set Bytes) (x : Bytes) (s : Tablet),
      (V ⊆ Found (childrenOf (kvs.row b)) p ∧ s.row b = cleared (kvs.row b) V) →
        (x = [] ∧ Blank (kvs.row b)) → ∃ s' : Tablet, deleteLook master b x s = (.ok [], s') ∧
          V ⊆ Found (childrenOf (kvs.row b)) p ∧ s'.row b = cleared (kvs.row b) V := by
    rintro V x s ⟨hV, hs⟩ ⟨rfl, hblank⟩
    have hblank' : Blank (s.row b) := fun c hc => by
      rw [hs]
      exact cleared_of_none (hblank c hc)
    obtain ⟨s', hlook, hs'⟩ := @deleteLook_nil master b s hblank'
    exact ⟨s', hlook, hV, hs'.trans hs⟩
  obtain ⟨t, hwalk, -, ht⟩ := (visiting_start hno).exists_walk
    (isTree_childrenOf hlive (finite_row kvs b)) hno (h.looksThrough hp hlive master b) hskip
    ⟨Set.empty_subset _, (cleared_empty _).symm⟩
  exact ⟨t, hwalk, ht⟩

/-- **Deleting comes to an end and is exact**: with rounds enough it returns from any path
in any row; and in a row in which everything can be found, it leaves of a subtree the marks
of its folders. -/
theorem deleteRec_ends_exactly (master : Master) (kvs : Tablet) (b : Bytes) :
    ∃ n, ∀ fuel, n < fuel → ∀ p, ∃ t : Tablet,
      (deleteRec b fuel p).run (Call.exec master) kvs = (.ok (), t) ∧
        (Findable (kvs.row b) → IsPath p → Live (kvs.row b) p →
          DeletedExactly (kvs.row b) (t.row b) p) := by
  refine ⟨(folderColumns kvs b).ncard, fun fuel hfuel p => ?_⟩
  obtain ⟨⟨⟩, hok⟩ := @ends_deleteRec master kvs b fuel p hfuel
  have hrun : (deleteRec b fuel p).run (Call.exec master) kvs = (.ok (), _) := Prod.ext hok rfl
  refine ⟨_, hrun, fun h hp hlive => ?_⟩
  obtain ⟨t, hwalk, ht⟩ := h.walk hp hlive master
  have heach : (Prog.each (deleteRec b fuel) [p]).run (Call.exec master) kvs = (.ok (), _) :=
    Prog.run_bind_of_ok _ hrun
  rw [((recursion_deleteRec master b).run_iff.mp ⟨fuel, heach⟩).unique hwalk, ht]
  exact h.deletedExactly hp hlive

theorem findable_noteInFolder : Findable (noteInFolder.row annsRow) := by
  refine ⟨fun q _ hq => listsChildren_noteInFolder (Or.inr hq),
    fun q _ hq => (chunks_noteInFolder hq).listsChunks (by
      obtain rfl := file_noteInFolder hq
      decide), noErrPaths_noteInFolder, fun q v _ hq hv hnil => absurd hnil ?_⟩
  obtain rfl := folder_noteInFolder hq
  have hv' : noteInFolder.row annsRow (metaCol (ascii "a")) = some (ascii "a/x") := by
    decide +kernel
  obtain rfl := Option.some.inj (hv.symm.trans hv')
  decide

/-- The folder is deleted, and the file in it. -/
theorem noteInFolder_deleted : ∃ n, ∀ fuel, n < fuel → ∃ t : Tablet,
    (deleteRec annsRow fuel (ascii "a")).run (Call.exec Master.first) noteInFolder = (.ok (), t) ∧
      DeletedExactly (noteInFolder.row annsRow) (t.row annsRow) (ascii "a") := by
  obtain ⟨n, hn⟩ := deleteRec_ends_exactly Master.first noteInFolder annsRow
  refine ⟨n, fun fuel hfuel => ?_⟩
  obtain ⟨t, hrun, ht⟩ := hn fuel hfuel (ascii "a")
  exact ⟨t, hrun, ht findable_noteInFolder (by decide) (Or.inr (by decide +kernel))⟩

end Tree

end PennCloud
