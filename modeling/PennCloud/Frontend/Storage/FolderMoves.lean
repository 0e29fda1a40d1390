import PennCloud.Frontend.Storage.MoveWalks

/-!
# Moving a folder

In a row in good order (`PennCloud.WellFormed`) a folder that is moved takes its whole
subtree along, and the row is in good order again (`PennCloud.webStorageMoveFolder_exact`).
The walk through the subtree keeps to the columns of the items that were looked at and of
their new paths (`PennCloud.Carried`); the two subtrees are apart, so that no new path is
taken for an old one. Then the folder goes from one listing to the other.
-/

namespace PennCloud

open Wire Calls Text

variable {master : Master} {kvs : Tablet} {b : Bytes}

/-- **A row in good order**: every item is in a folder that is there, the folders list their
children and the files their chunks, and the lists can be told from errors and the root's
listing from an item. -/
structure WellFormed (R : Row) : Prop where
  /-- The folders of the items. -/
  parents : ∀ folder n, IsFolderPath folder → isValidName n = true →
    Live R (inFolder folder n) → Existing R folder
  /-- The listings. -/
  listings : ∀ q, IsFolderPath q → Existing R q → ListsChildren R q
  /-- The files. -/
  files : ∀ q, IsPath q → R q = some kvFile → ∃ n, Chunks R q n
  /-- No path begins with `ERR`. -/
  names : NoErrPaths R
  /-- No item has the name of the root's listing. -/
  root : ¬Live R (ascii "metadata")

namespace WellFormed

variable {R : Row} (h : WellFormed R)
include h

/-- Everything alive below an item is found from it. -/
theorem found {a p : Bytes} (hp : IsPath p) : Under a p → Live R p →
    p ∈ Found (childrenOf R) a := by
  refine hp.induction (P := fun p => Under a p → Live R p → p ∈ Found (childrenOf R) a) ?_
  intro folder n hfolder hn ih hu hlive
  rcases under_inFolder hfolder hn hu with heq | ⟨hfolder, hu'⟩
  · rw [heq]
    exact Relation.ReflTransGen.refl
  · have hex := (h.parents folder n (Or.inr hfolder) hn hlive).resolve_left hfolder.ne_nil
    refine (ih hfolder hu' (Or.inr hex)).tail ⟨hex, n, hn, hfolder.inFolder_eq n, hlive⟩

/-- Nothing lives below a path where nothing lives. -/
theorem free {a : Bytes} (ha : ¬Live R a) : Free R a := by
  intro p hp
  refine hp.induction (P := fun p => Under a p → ¬Live R p) ?_
  intro folder n hfolder hn ih hu hlive
  rcases under_inFolder hfolder hn hu with heq | ⟨hfolder, hu'⟩
  · exact ha (heq ▸ hlive)
  · have hex := (h.parents folder n (Or.inr hfolder) hn hlive).resolve_left hfolder.ne_nil
    exact ih hfolder hu' (Or.inr hex)

/-- The children on a listing. -/
theorem mem_entriesOf {q e : Bytes} (hq : IsPath q) (hfolder : R q = some kvFolder) :
    e ∈ entriesOf R q ↔ e ∈ childrenOf R q :=
  ((h.listings q (Or.inr hq) (Or.inr hfolder)).mem_iff e).trans (mem_childrenOf hq hfolder).symm

/-- What `renameFolderMoveRec` goes through is what is on the listing. -/
theorem movedChildren_eq {q : Bytes} (hq : IsPath q) (hfolder : R q = some kvFolder)
    (hR : ∀ c, ColumnOf q c → kvs.row b c = R c) :
    movedChildren q (kvs.text b (q ++ ascii "-metadata")) = entriesOf R q := by
  have hlists := h.listings q (Or.inr hq) (Or.inr hfolder)
  have hrow := hR _ (columnOf_metadata q)
  rcases hv : R (q ++ ascii "-metadata") with _ | v
  · have herr := (Tablet.notFound_of_row (hrow.trans hv)).isErr
    rw [movedChildren, if_pos herr, entriesOf, hq.metaCol_eq, hv]
    simp [splitStringStorage]
  · have hv' : R (metaCol q) = some v := by rwa [hq.metaCol_eq]
    have herr := hlists.not_isErr (Or.inr hq) h.names hv'
    rw [Tablet.text_of_row (hrow.trans hv), movedChildren, herr, if_neg (by decide),
      entriesOf_of_some hv']
    refine List.filter_congr fun e he => ?_
    rw [decide_eq_decide]
    refine ⟨And.left, fun hne => ⟨hne, ?_⟩⟩
    rintro rfl
    have hmem : e ∈ entriesOf R e := PennCloud.mem_entriesOf.mpr ⟨hne, v, hv', he⟩
    obtain ⟨-, n, -, heq, -⟩ := (h.mem_entriesOf hq hfolder).mp hmem
    exact absurd (List.append_right_eq_self.mp heq.symm) (by simp)

end WellFormed

/-! ### The walk through the subtree -/

/-- An item of `R` that was looked at is at its new path in `R'`: of a folder the mark is
left at the old one, and its listing names the new paths. -/
structure Placed (R R' : Row) (p : Bytes × Bytes) : Prop where
  /-- A folder. -/
  folder : R p.1 = some kvFolder → R' p.1 = some delKvFolder ∧
    R' (p.1 ++ ascii "-metadata") = none ∧ R' p.2 = some kvFolder ∧
    R' (p.2 ++ ascii "-metadata") = some (joinStorage ((entriesOf R p.1).map (movedChild p.2)))
  /-- A file. -/
  file : R p.1 = some kvFile → ∃ n, Chunks R p.1 n ∧ FilePlaced R R' p.1 p.2 n

/-- This is about the columns of the two paths. -/
theorem Placed.congr {R R' R'' : Row} {p : Bytes × Bytes} (h : Placed R R' p)
    (hold : ∀ c, ColumnOf p.1 c → R'' c = R' c) (hnew : ∀ c, ColumnOf p.2 c → R'' c = R' c) :
    Placed R R'' p := by
  refine ⟨fun hfolder => ?_, fun hfile => ?_⟩
  · rw [hold _ (ColumnOf.refl _), hold _ (columnOf_metadata _), hnew _ (ColumnOf.refl _),
      hnew _ (columnOf_metadata _)]
    exact h.folder hfolder
  · obtain ⟨n, hch, hplaced⟩ := h.file hfile
    exact ⟨n, hch, hplaced.congr hold hnew⟩

/-- **The items `V` were carried** to their new paths, and nothing else has changed. -/
structure Carried (R R' : Row) (V : Set (Bytes × Bytes)) : Prop where
  /-- The items. -/
  placed : ∀ p ∈ V, Placed R R' p
  /-- Everything else. -/
  outside : ∀ c, (∀ p ∈ V, ¬ColumnOf p.1 c ∧ ¬ColumnOf p.2 c) → R' c = R c

section Subtree

variable {R R' : Row} {old new : Bytes} {V : Set (Bytes × Bytes)} {p x : Bytes × Bytes}

/-- Old paths are no new paths. -/
theorem ne_of_found (happart : Apart old new) (hp : p ∈ Found (pairsOf R) (old, new))
    (hx : x ∈ Found (pairsOf R) (old, new)) : p.1 ≠ x.2 := fun heq =>
  happart.not_under (under_old_of_found hp) (heq ▸ under_new_of_found hx)

/-- The columns of a pair are not those of another one. -/
theorem not_columnOf_of_found (hold : IsPath old) (hnew : IsPath new) (happart : Apart old new)
    (hp : p ∈ Found (pairsOf R) (old, new)) (hx : x ∈ Found (pairsOf R) (old, new)) (hne : p ≠ x)
    {c : Bytes} (hc : ColumnOf p.1 c ∨ ColumnOf p.2 c) : ¬ColumnOf x.1 c ∧ ¬ColumnOf x.2 c := by
  have hp1 := (path_old_of_found hold hp).notMem_dash
  have hp2 := (path_new_of_found hnew hp).notMem_dash
  have hx1 := (path_old_of_found hold hx).notMem_dash
  have hx2 := (path_new_of_found hnew hx).notMem_dash
  rcases hc with hc | hc
  · exact ⟨fun hc' => hne (pair_eq_of_old hp hx (ColumnOf.eq hp1 hx1 hc hc')),
      fun hc' => ne_of_found happart hp hx (ColumnOf.eq hp1 hx2 hc hc')⟩
  · exact ⟨fun hc' => ne_of_found happart hx hp (ColumnOf.eq hx1 hp2 hc' hc),
      fun hc' => hne (pair_eq_of_new hp hx (ColumnOf.eq hp2 hx2 hc hc'))⟩

/-- One item more. -/
theorem Carried.insert {R'' : Row} (hold : IsPath old) (hnew : IsPath new)
    (happart : Apart old new) (hV : V ⊆ Found (pairsOf R) (old, new))
    (hx : x ∈ Found (pairsOf R) (old, new)) (hxV : x ∉ V) (h : Carried R R' V)
    (hplaced : Placed R R'' x)
    (houtside : ∀ c, ¬ColumnOf x.1 c → ¬ColumnOf x.2 c → R'' c = R' c) :
    Carried R R'' (insert x V) := by
  refine ⟨fun p hp => ?_, fun c hc => ?_⟩
  · rcases Set.mem_insert_iff.mp hp with rfl | hp
    · exact hplaced
    · have hne : p ≠ x := fun heq => hxV (heq ▸ hp)
      have hother : ∀ c, ColumnOf p.1 c ∨ ColumnOf p.2 c → R'' c = R' c := fun c hc => by
        obtain ⟨h1, h2⟩ := not_columnOf_of_found hold hnew happart (hV hp) hx hne hc
        exact houtside c h1 h2
      exact (h.placed p hp).congr (fun c hc => hother c (Or.inl hc)) fun c hc =>
        hother c (Or.inr hc)
  · obtain ⟨h1, h2⟩ := hc x (Set.mem_insert x V)
    rw [houtside c h1 h2]
    exact h.outside c fun p hp => hc p (Set.mem_insert_of_mem x hp)

/-- The new listing of a folder leads to its children. -/
theorem WellFormed.moveNext_eq (h : WellFormed R) {q q' : Bytes} (hq : IsPath q)
    (hfolder : R q = some kvFolder) (hR : ∀ c, ColumnOf q c → kvs.row b c = R c) :
    moveNext .relocate (q, q') (kvs.text b (q ++ ascii "-metadata")) =
      (entriesOf R q).map fun e => (e, movedChild q' e) := by
  rw [moveNext]
  exact congrArg (List.map _) (h.movedChildren_eq hq hfolder hR)

theorem WellFormed.mem_moveNext (h : WellFormed R) {q q' : Bytes} (hq : IsPath q)
    (hfolder : R q = some kvFolder) {y : Bytes × Bytes} :
    (y ∈ (entriesOf R q).map fun e => (e, movedChild q' e)) ↔ y ∈ pairsOf R (q, q') := by
  rw [List.mem_map]
  constructor
  · rintro ⟨e, he, rfl⟩
    obtain ⟨-, n, hn, rfl, hlive⟩ := (h.mem_entriesOf hq hfolder).mp he
    refine ⟨hfolder, n, hn, Prod.ext rfl ?_, hlive⟩
    exact TreeMove.relocate.target_child q' q n (isValidName_ne_nil hn) (notMem_of_isValidName hn)
  · rintro ⟨-, n, hn, rfl, hlive⟩
    refine ⟨q ++ 47 :: n, (h.mem_entriesOf hq hfolder).mpr ⟨hfolder, n, hn, rfl, hlive⟩, ?_⟩
    exact Prod.ext rfl
      (TreeMove.relocate.target_child q' q n (isValidName_ne_nil hn) (notMem_of_isValidName hn))

/-- **Looking at a new pair** carries its item and goes on with its children. -/
theorem WellFormed.looksThrough (h : WellFormed R) (hold : IsPath old) (hnew : IsPath new)
    (happart : Apart old new) (hlive : Live R old) (master : Master) (b : Bytes) :
    LooksThrough (moveLook .relocate master b) (pairsOf R) (old, new) (fun _ => False)
      (fun V s => V ⊆ Found (pairsOf R) (old, new) ∧ Carried R (s.row b) V) := by
  rintro V x s ⟨hV, hs⟩ hx hxV
  have hx1 := path_old_of_found hold hx
  have hx2 := path_new_of_found hnew hx
  have hne : x.1 ≠ x.2 := ne_of_found happart hx hx
  have hxapart : Apart x.1 x.2 := happart.below (under_old_of_found hx) (under_new_of_found hx)
  -- the item is as it was
  have hfresh : ∀ c, ColumnOf x.1 c → s.row b c = R c := fun c hc => hs.outside c fun p hp =>
    not_columnOf_of_found hold hnew happart hx (hV hp) (fun heq => hxV (heq ▸ hp)) (Or.inl hc)
  have hsub : insert x V ⊆ Found (pairsOf R) (old, new) := Set.insert_subset hx hV
  obtain ⟨-, -, -, hfound⟩ := exists_of_found hx
  rcases live_of_found hlive hfound with hfile | hfolder
  · have hmarker := (hfresh x.1 (ColumnOf.refl _)).trans hfile
    have hnot : s.row b x.1 ≠ some kvFolder := by
      rw [hmarker]
      decide
    have hmoves : TreeMove.relocate.moves (s.text b x.1) = true :=
      decide_eq_true (Tablet.text_of_row hmarker)
    obtain ⟨n, hch⟩ := h.files x.1 hx1 hfile
    obtain ⟨t, ht, hmoved⟩ := @run_relocateFile master s b x.1 x.2 n hx1 hx2 hne
      (h.names x.1 hx1 (Or.inl hfile)) (hch.congr hfresh)
    refine ⟨[], t, ?_, ⟨hsub, hs.insert hold hnew happart hV hx hxV ⟨fun hfolder => ?_, fun _ =>
      ⟨n, hch, hmoved.toFilePlaced.of_eq hfresh⟩⟩ hmoved.outside⟩, by simp, fun y hy => ?_,
      List.nodup_nil⟩
    · rw [moveLook, if_neg hnot, if_pos hmoves, ht]
      rfl
    · rw [hfile] at hfolder
      exact absurd hfolder (by decide)
    · have hfolder := hy.1
      rw [hfile] at hfolder
      exact absurd hfolder (by decide)
  · have hmarker := (hfresh x.1 (ColumnOf.refl _)).trans hfolder
    have hlisting : TreeMove.relocate.listing x.1 x.2 (s.text b (x.1 ++ ascii "-metadata")) =
        joinStorage ((entriesOf R x.1).map (movedChild x.2)) := by
      rw [← h.movedChildren_eq hx1 hfolder hfresh]
      rfl
    have hrow := row_openTablet s b x.1 x.2 (joinStorage ((entriesOf R x.1).map (movedChild x.2)))
    refine ⟨(entriesOf R x.1).map fun e => (e, movedChild x.2 e), openTablet s b x.1 x.2
      (joinStorage ((entriesOf R x.1).map (movedChild x.2))), ?_,
      ⟨hsub, hs.insert hold hnew happart hV hx hxV ⟨fun _ => ?_, fun hfile => ?_⟩
        fun c h1 h2 => ?_⟩,
      fun y hy => Or.inr ((h.mem_moveNext hx1 hfolder).mp hy),
      fun y hy => (h.mem_moveNext hx1 hfolder).mpr hy, ?_⟩
    · rw [moveLook, if_pos hmarker, hlisting]
      exact Prod.ext (congrArg Except.ok (h.moveNext_eq hx1 hfolder hfresh)) rfl
    · rw [hrow]
      exact ⟨opened_self, Function.update_self .., opened_new hxapart _, opened_listing hxapart⟩
    · rw [hfolder] at hfile
      exact absurd hfile (by decide)
    · have hself : ∀ p c' : Bytes, ¬ColumnOf p c → ColumnOf p c' → c ≠ c' := fun p c' hp hc' heq =>
        hp (heq ▸ hc')
      rw [hrow]
      exact opened_of_ne (hself _ _ h2 (ColumnOf.refl _)) (hself _ _ h2 (columnOf_metadata _))
        (hself _ _ h1 (ColumnOf.refl _)) (hself _ _ h1 (columnOf_metadata _))
    · refine List.Nodup.filter _ ((h.listings x.1 (Or.inr hx1) (Or.inr hfolder)).nodup.map ?_)
      exact fun e e' heq => (Prod.mk.inj heq).1

/-- **A subtree that is moved** is carried as a whole. -/
theorem WellFormed.carried (h : WellFormed (kvs.row b)) (hold : IsPath old) (hnew : IsPath new)
    (happart : Apart old new) (hfolder : kvs.row b old = some kvFolder) (master : Master) :
    ∃ n, ∃ t : Tablet,
      (∀ fuel, n ≤ fuel →
        (moveTree .relocate b fuel old new).run (Call.exec master) kvs = (.ok (), t)) ∧
      Carried (kvs.row b) (t.row b) (Found (pairsOf (kvs.row b)) (old, new)) := by
  classical
  have hno : ∀ q ∈ Found (pairsOf (kvs.row b)) (old, new), ¬False := fun _ _ => not_false
  obtain ⟨t, hwalk, -, hcarried⟩ := (visiting_start hno).exists_walk
    (isTree_pairsOf (Or.inr hfolder) (finite_row kvs b)) hno
    (h.looksThrough hold hnew happart (Or.inr hfolder) master b)
    (fun _ _ _ _ hfalse => hfalse.elim)
    ⟨Set.empty_subset _, ⟨fun p hp => absurd hp (Set.notMem_empty p), fun _ _ => rfl⟩⟩
  obtain ⟨n, hrun⟩ := run_moveTree_of_walk hfolder hwalk
  exact ⟨n, t, hrun, hcarried⟩

end Subtree

/-! ### The items afterwards -/

/-- A folder was put under a new path where nothing was, with everything below it. -/
structure Transplanted (R T : Row) (old new : Bytes) : Prop where
  /-- The row was in good order. -/
  good : WellFormed R
  /-- The paths, -/
  old_path : IsPath old
  /-- of which the new one -/
  new_path : IsPath new
  /-- is apart from the old one, -/
  apart : Apart old new
  /-- free, -/
  free : ¬Live R new
  /-- and not that of the root's listing. -/
  plain : new ≠ ascii "metadata"
  /-- It is a folder. -/
  folder : R old = some kvFolder
  /-- Its subtree was carried. -/
  carried : Carried R T (Found (pairsOf R) (old, new))

namespace Transplanted

variable {R T : Row} {old new : Bytes} (h : Transplanted R T old new)
include h

/-- An item of the subtree is in a pair. -/
theorem exists_pair {p : Bytes} (hp : IsPath p) (hu : Under old p) (hlive : Live R p) :
    ∃ x ∈ Found (pairsOf R) (old, new), x.1 = p := by
  obtain ⟨t, -, hfound⟩ := @PennCloud.exists_pair R old new p (h.good.found hp hu hlive)
  exact ⟨_, hfound, rfl⟩

/-- What was live is not below the new path. -/
theorem not_under_new {p : Bytes} (hp : IsPath p) (hlive : Live R p) : ¬Under new p := fun hu =>
  h.good.free h.free p hp hu hlive

/-- The items of the subtree are at their new paths. -/
theorem marker_new {x : Bytes × Bytes} (hx : x ∈ Found (pairsOf R) (old, new)) :
    T x.2 = R x.1 ∧ Live R x.1 := by
  obtain ⟨-, -, -, hfound⟩ := exists_of_found hx
  have hlive := live_of_found (Or.inr h.folder) hfound
  refine ⟨?_, hlive⟩
  rcases hlive with hfile | hfolder
  · obtain ⟨n, -, hplaced⟩ := (h.carried.placed x hx).file hfile
    exact hplaced.marker.trans hfile.symm
  · exact ((h.carried.placed x hx).folder hfolder).2.2.1.trans hfolder.symm

/-- They are not at their old ones. -/
theorem not_live_old {x : Bytes × Bytes} (hx : x ∈ Found (pairsOf R) (old, new)) :
    ¬Live T x.1 := by
  rcases (h.marker_new hx).2 with hfile | hfolder
  · obtain ⟨n, -, hplaced⟩ := (h.carried.placed x hx).file hfile
    rw [Live, hplaced.gone_marker]
    simp
  · rw [Live, ((h.carried.placed x hx).folder hfolder).1]
    decide

/-- A path in no pair is not touched, nor is anything of it. -/
theorem outside {p c : Bytes} (hp : IsPath p)
    (hno : ∀ x ∈ Found (pairsOf R) (old, new), x.1 ≠ p ∧ x.2 ≠ p) (hc : ColumnOf p c) :
    T c = R c := by
  refine h.carried.outside c fun x hx => ⟨fun hcol => (hno x hx).1 ?_, fun hcol => (hno x hx).2 ?_⟩
  · exact ColumnOf.eq (path_old_of_found h.old_path hx).notMem_dash hp.notMem_dash hcol hc
  · exact ColumnOf.eq (path_new_of_found h.new_path hx).notMem_dash hp.notMem_dash hcol hc

/-- Items elsewhere are as they were. -/
theorem elsewhere {p c : Bytes} (hp : IsPath p) (hlive : Live R p) (hu : ¬Under old p)
    (hc : ColumnOf p c) : T c = R c := by
  refine h.outside hp (fun x hx => ⟨?_, ?_⟩) hc
  · rintro rfl
    exact hu (under_old_of_found hx)
  · rintro rfl
    exact h.not_under_new hp hlive (under_new_of_found hx)

/-- No item comes to the path of the root's listing. -/
theorem ne_metadata {x : Bytes × Bytes} (hx : x ∈ Found (pairsOf R) (old, new)) :
    x.2 ≠ ascii "metadata" := by
  intro heq
  have hu := under_new_of_found hx
  rw [heq] at hu
  rcases hu.eq_or_slash (by decide) with hnew | ⟨t, ht⟩
  · exact h.plain hnew.symm
  · have hmem : (47 : UInt8) ∈ ascii "metadata" := ht ▸ List.mem_append_right new List.mem_cons_self
    exact absurd hmem (by decide)

/-- The listing of a folder elsewhere is as it was. -/
theorem listing_elsewhere {folder : Bytes} (hfolder : IsFolderPath folder)
    (hex : Existing R folder) (hu : folder ≠ [] → ¬Under old folder) :
    T (metaCol folder) = R (metaCol folder) := by
  have hnot : ∀ {q : Bytes}, IsPath q → q ≠ folder → q ≠ ascii "metadata" →
      ¬ColumnOf q (metaCol folder) := fun hq hne hmeta hcol =>
    (columnOf_metaCol hfolder hq hcol).elim (fun hand => hne hand.2) fun hand => hmeta hand.2
  refine h.carried.outside _ fun x hx => ⟨?_, ?_⟩
  · have hx1 := path_old_of_found h.old_path hx
    refine hnot hx1 (fun heq => ?_) fun heq => h.good.root (heq ▸ (h.marker_new hx).2)
    exact hu (heq ▸ hx1.ne_nil) (heq ▸ under_old_of_found hx)
  · have hx2 := path_new_of_found h.new_path hx
    refine hnot hx2 (fun heq => ?_) (h.ne_metadata hx)
    have hfolder' := hex.resolve_left (heq ▸ hx2.ne_nil)
    exact h.not_under_new (heq ▸ hx2) (Or.inr hfolder') (heq ▸ under_new_of_found hx)

/-- The children of a pair that is met are met. -/
theorem child {x : Bytes × Bytes} (hx : x ∈ Found (pairsOf R) (old, new)) {n : Bytes}
    (hn : isValidName n = true) (hlive : Live R (x.1 ++ 47 :: n)) :
    (x.1 ++ 47 :: n, x.2 ++ 47 :: n) ∈ Found (pairsOf R) (old, new) := by
  have hx1 := path_old_of_found h.old_path hx
  rw [← hx1.inFolder_eq] at hlive
  have hfolder := (h.good.parents x.1 n (Or.inr hx1) hn hlive).resolve_left hx1.ne_nil
  rw [hx1.inFolder_eq] at hlive
  exact Relation.ReflTransGen.tail hx ⟨hfolder, n, hn, rfl, hlive⟩

end Transplanted

/-! ### The listings afterwards -/

/-- The entries of a listing that was just put together. -/
theorem entriesOf_join {R : Row} {folder : Bytes} {es : List Bytes}
    (h : R (metaCol folder) = some (joinStorage es)) (hes : ∀ e ∈ es, 44 ∉ e ∧ e ≠ []) :
    entriesOf R folder = es := by
  rw [entriesOf_of_some h]
  rcases es with _ | ⟨e, es⟩
  · simp [splitStringStorage, joinStorage]
  · have hsplit : splitStringStorage (joinStorage (e :: es)) = e :: es :=
      List.splitOn_intercalate 44 (fun e' he' => (hes e' he').1) (List.cons_ne_nil e es)
    rw [hsplit]
    exact List.filter_eq_self.mpr fun e' he' => decide_eq_true (hes e' he').2

/-- A listing with a new entry. -/
def gained (listing : Option Bytes) (entry : Bytes) : Bytes :=
  match listing with
  | none => entry
  | some v => if v = [] then entry else v ++ 44 :: entry

theorem entriesOf_gained {R R' : Row} {folder entry : Bytes} (hcomma : 44 ∉ entry)
    (hne : entry ≠ []) (h : R' (metaCol folder) = some (gained (R (metaCol folder)) entry)) :
    entriesOf R' folder = entriesOf R folder ++ [entry] := by
  have hself : (splitStringStorage entry).filter (fun e => e ≠ []) = [entry] := by
    rw [splitStringStorage_of_notMem hcomma, List.filter_cons_of_pos (by simpa using hne),
      List.filter_nil]
  rw [entriesOf_of_some h, entriesOf]
  rcases R (metaCol folder) with _ | v
  · exact hself
  · by_cases hv : v = []
    · simpa [hv, splitStringStorage, gained] using hself
    · simp only [gained, if_neg hv]
      rw [splitStringStorage_append, List.filter_append, hself]

/-- The transplanted folder goes from one listing to another. -/
structure HandedOver (R T R' : Row) (parent target m : Bytes) : Prop
    extends Transplanted R T (inFolder parent m) (inFolder target m) where
  /-- Its name. -/
  name : isValidName m = true
  /-- Where it was, -/
  parent_path : IsFolderPath parent
  /-- and where it is now: -/
  target_path : IsFolderPath target
  /-- a folder that is there, -/
  target_ex : Existing R target
  /-- but not in it. -/
  target_apart : target ≠ [] → ¬Under (inFolder parent m) target
  /-- The target has gained an entry. -/
  gained : R' (metaCol target) = some (PennCloud.gained (R (metaCol target)) (inFolder target m))
  /-- The folder it was in has lost one. -/
  lost : ∃ v, R (metaCol parent) = some v ∧ R' (metaCol parent) =
    if keptEntries (inFolder parent m) v = [] then none
    else some (joinStorage (keptEntries (inFolder parent m) v))
  /-- Nothing else has changed. -/
  rest : ∀ c, c ≠ metaCol target → c ≠ metaCol parent → R' c = T c

/-- **A folder that was moved**, with its subtree and the two listings. -/
structure FolderMoved (R R' : Row) (source target new : Bytes) : Prop where
  /-- What is below it is below the new path, of the same kind and with the same bytes. -/
  items : ∀ t, (∀ x ∈ t.head?, x = 47) → IsPath (source ++ t) → Live R (source ++ t) →
    R' (new ++ t) = R (source ++ t) ∧
      (R (source ++ t) = some kvFile → bytesOf R' (new ++ t) = bytesOf R (source ++ t))
  /-- There is nothing else below the new path, -/
  only : ∀ p, IsPath p → Under new p → Live R' p → ∃ t, p = new ++ t ∧ Live R (source ++ t)
  /-- and nothing below the old one. -/
  gone : Free R' source
  /-- The target has gained an entry. -/
  gained : R' (metaCol target) = some (gained (R (metaCol target)) new)
  /-- The folder it was in has lost one. -/
  lost : ∃ v, R (metaCol (beforeLast 47 source)) = some v ∧
    R' (metaCol (beforeLast 47 source)) =
      if keptEntries source v = [] then none else some (joinStorage (keptEntries source v))
  /-- Nothing else has changed. -/
  outside : ∀ c, c ≠ metaCol target → c ≠ metaCol (beforeLast 47 source) →
    (∀ t, (∀ x ∈ t.head?, x = 47) → Live R (source ++ t) →
      ¬ColumnOf (source ++ t) c ∧ ¬ColumnOf (new ++ t) c) → R' c = R c
  /-- The row is in good order. -/
  good : WellFormed R'

/-- The path of the root's listing is no item when there are paths on the listing. -/
theorem not_live_metadata {R : Row} (h : ∀ e ∈ entriesOf R [], 45 ∉ e) :
    ¬Live R (ascii "metadata") := by
  have hno : ∀ v : Bytes, 44 ∉ v → v ≠ [] → 45 ∈ v → R (metaCol []) ≠ some v := by
    intro v hcomma hne hdash hv
    refine h v (mem_entriesOf.mpr ⟨hne, v, hv, ?_⟩) hdash
    rw [splitStringStorage_of_notMem hcomma]
    exact List.mem_singleton_self v
  rintro (hfile | hfolder)
  · exact hno kvFile (by decide) (by decide) (by decide) hfile
  · exact hno kvFolder (by decide) (by decide) (by decide) hfolder

namespace HandedOver

variable {R T R' : Row} {parent target m : Bytes} (h : HandedOver R T R' parent target m)
include h

/-- The folder it was in. -/
theorem parent_ex : Existing R parent :=
  h.good.parents parent m h.parent_path h.name (Or.inr h.folder)

theorem parent_ne_target : parent ≠ target := by
  rintro rfl
  exact h.free (Or.inr h.folder)

/-- The listings of the folders elsewhere. -/
theorem entriesOf_elsewhere {q : Bytes} (hq : IsFolderPath q) (hex : Existing R q)
    (hu : q ≠ [] → ¬Under (inFolder parent m) q) :
    entriesOf R' q = (entriesOf R q).filter (fun e => e ≠ inFolder parent m) ++
      if q = target then [inFolder target m] else [] := by
  have hsame : T (metaCol q) = R (metaCol q) := h.listing_elsewhere hq hex hu
  -- only the folder it was in lists it
  have hother : q ≠ parent →
      (entriesOf R q).filter (fun e => e ≠ inFolder parent m) = entriesOf R q := by
    refine fun hqp => List.filter_eq_self.mpr fun e he => decide_eq_true ?_
    rintro rfl
    obtain ⟨n, hn, heq, -⟩ := ((h.good.listings q hq hex).mem_iff _).mp he
    have hbefore := congrArg (beforeLast 47) heq.symm
    rw [beforeLast_inFolder hn, beforeLast_inFolder h.name] at hbefore
    exact hqp hbefore
  by_cases hqt : q = target
  · subst hqt
    rw [if_pos rfl, hother h.parent_ne_target.symm]
    exact entriesOf_gained h.new_path.notMem_comma h.new_path.ne_nil h.gained
  · rw [if_neg hqt, List.append_nil]
    by_cases hqp : q = parent
    · subst hqp
      obtain ⟨v, hv, hlost⟩ := h.lost
      exact entriesOf_lost hv hlost
    · rw [hother hqp]
      exact entriesOf_congr ((h.rest _ (fun heq => hqt (metaCol_inj heq))
        fun heq => hqp (metaCol_inj heq)).trans hsame)

/-- There are paths on the listing of the root. -/
theorem not_live_metadata : ¬Live R' (ascii "metadata") := by
  refine PennCloud.not_live_metadata fun e he => ?_
  rw [h.entriesOf_elsewhere (Or.inl rfl) (Or.inl rfl) (fun hne => absurd rfl hne),
    List.mem_append] at he
  rcases he with he | he
  · have hmem := ((h.good.listings [] (Or.inl rfl) (Or.inl rfl)).mem_iff e).mp
      (List.mem_filter.mp he).1
    obtain ⟨n, hn, rfl, -⟩ := hmem
    exact (IsPath.inFolder (Or.inl rfl) hn).notMem_dash
  · split_ifs at he
    · rw [List.mem_singleton.mp he]
      exact h.new_path.notMem_dash
    · exact absurd he List.not_mem_nil

/-- Of a path other than that of the root's listing, only the listing may have changed. -/
theorem rest_of_path {p : Bytes} (hp : IsPath p) (hmeta : p ≠ ascii "metadata") : R' p = T p := by
  have hne : ∀ folder, IsFolderPath folder → p ≠ metaCol folder := by
    rintro folder hfolder rfl
    rcases columnOf_metaCol hfolder hp (ColumnOf.refl _) with ⟨hne, heq⟩ | ⟨-, heq⟩
    · exact hp.notMem_dash (by
        rw [metaCol, if_neg hne]
        exact List.mem_append_right folder (by decide))
    · exact hmeta heq
  exact h.rest p (hne _ h.target_path) (hne _ h.parent_path)

/-- **The items afterwards** are those that were carried and those elsewhere. -/
theorem marker_iff {p v : Bytes} (hp : IsPath p) (hv : v = kvFile ∨ v = kvFolder) :
    R' p = some v ↔
      (∃ x ∈ Found (pairsOf R) (inFolder parent m, inFolder target m), x.2 = p ∧ R x.1 = some v) ∨
        (¬Under (inFolder parent m) p ∧ R p = some v) := by
  have hlive : ∀ {Q : Row} {q : Bytes}, Q q = some v → Live Q q := by
    intro Q q hq
    rcases hv with rfl | rfl
    · exact Or.inl hq
    · exact Or.inr hq
  constructor
  · intro hR'
    have hmeta : p ≠ ascii "metadata" := fun heq => h.not_live_metadata (heq ▸ hlive hR')
    have hT := (h.rest_of_path hp hmeta).symm.trans hR'
    by_cases hnew : ∃ x ∈ Found (pairsOf R) (inFolder parent m, inFolder target m), x.2 = p
    · obtain ⟨x, hx, rfl⟩ := hnew
      exact Or.inl ⟨x, hx, rfl, (h.marker_new hx).1.symm.trans hT⟩
    · have hold : ∀ x ∈ Found (pairsOf R) (inFolder parent m, inFolder target m), x.1 ≠ p := by
        rintro x hx rfl
        exact h.not_live_old hx (hlive hT)
      have hR := (h.outside hp (fun x hx => ⟨hold x hx, fun heq => hnew ⟨x, hx, heq⟩⟩)
        (ColumnOf.refl p)).symm.trans hT
      refine Or.inr ⟨fun hu => ?_, hR⟩
      obtain ⟨x, hx, heq⟩ := h.exists_pair hp hu (hlive hR)
      exact hold x hx heq
  · rintro (⟨x, hx, rfl, hR⟩ | ⟨hu, hR⟩)
    · exact (h.rest_of_path hp (h.ne_metadata hx)).trans ((h.marker_new hx).1.trans hR)
    · have hmeta : p ≠ ascii "metadata" := fun heq => h.good.root (heq ▸ hlive hR)
      exact (h.rest_of_path hp hmeta).trans
        ((h.elsewhere hp (hlive hR) hu (ColumnOf.refl p)).trans hR)

theorem live_iff {p : Bytes} (hp : IsPath p) : Live R' p ↔
    (∃ x ∈ Found (pairsOf R) (inFolder parent m, inFolder target m), x.2 = p) ∨
      (¬Under (inFolder parent m) p ∧ Live R p) := by
  rw [Live, h.marker_iff hp (Or.inl rfl), h.marker_iff hp (Or.inr rfl)]
  constructor
  · rintro ((⟨x, hx, heq, -⟩ | ⟨hu, hR⟩) | ⟨x, hx, heq, -⟩ | ⟨hu, hR⟩)
    · exact Or.inl ⟨x, hx, heq⟩
    · exact Or.inr ⟨hu, Or.inl hR⟩
    · exact Or.inl ⟨x, hx, heq⟩
    · exact Or.inr ⟨hu, Or.inr hR⟩
  · rintro (⟨x, hx, heq⟩ | ⟨hu, hR⟩)
    · exact (h.marker_new hx).2.imp (fun hR => Or.inl ⟨x, hx, heq, hR⟩)
        fun hR => Or.inl ⟨x, hx, heq, hR⟩
    · exact hR.imp (fun hR => Or.inr ⟨hu, hR⟩) fun hR => Or.inr ⟨hu, hR⟩

/-- A folder that is there is a new one or one elsewhere. -/
theorem existing_iff {q : Bytes} (hq : IsFolderPath q) : Existing R' q ↔
    (∃ x ∈ Found (pairsOf R) (inFolder parent m, inFolder target m),
      x.2 = q ∧ R x.1 = some kvFolder) ∨
        (Existing R q ∧ (q ≠ [] → ¬Under (inFolder parent m) q)) := by
  rcases hq with rfl | hq
  · exact iff_of_true (Or.inl rfl) (Or.inr ⟨Or.inl rfl, fun hne => absurd rfl hne⟩)
  · rw [Existing, Existing, h.marker_iff hq (Or.inr rfl)]
    simp only [hq.ne_nil, ne_eq, not_false_eq_true, false_or, forall_const]
    exact or_congr_right and_comm

/-- No folder elsewhere is below the new path. -/
theorem ne_new {q : Bytes} (hq : IsFolderPath q) (hex : Existing R q) {x : Bytes × Bytes}
    (hx : x ∈ Found (pairsOf R) (inFolder parent m, inFolder target m)) : x.2 ≠ q := by
  rintro rfl
  have hx2 := path_new_of_found h.new_path hx
  exact h.not_under_new hx2 (Or.inr (hex.resolve_left hx2.ne_nil)) (under_new_of_found hx)

/-- The children of a new folder. -/
theorem live_new_child {x : Bytes × Bytes}
    (hx : x ∈ Found (pairsOf R) (inFolder parent m, inFolder target m)) {n : Bytes}
    (hn : isValidName n = true) : Live R' (x.2 ++ 47 :: n) ↔ Live R (x.1 ++ 47 :: n) := by
  have hx2 := path_new_of_found h.new_path hx
  rw [h.live_iff (hx2.append hn)]
  constructor
  · rintro (⟨y, hy, heq⟩ | ⟨-, hlive⟩)
    · rw [← child_of_new hx hy heq]
      exact (h.marker_new hy).2
    · exact absurd ((under_new_of_found hx).trans (under_slash _ n))
        (h.not_under_new (hx2.append hn) hlive)
  · exact fun hlive => Or.inl ⟨_, h.child hx hn hlive, rfl⟩

/-- The children of a folder elsewhere. -/
theorem live_child {q n : Bytes} (hq : IsFolderPath q) (hex : Existing R q)
    (hu : q ≠ [] → ¬Under (inFolder parent m) q) (hn : isValidName n = true) :
    Live R' (inFolder q n) ↔ (Live R (inFolder q n) ∧ inFolder q n ≠ inFolder parent m) ∨
      (q = target ∧ n = m) := by
  have hpath := IsPath.inFolder hq hn
  rw [h.live_iff hpath, or_comm]
  refine or_congr ?_ ?_
  · rw [and_comm]
    refine and_congr_right fun _ => not_congr ⟨fun hunder => ?_, fun heq => ?_⟩
    · exact (under_inFolder hq hn hunder).resolve_right fun hand => hu hand.1.ne_nil hand.2
    · rw [heq]
      exact Under.refl _
  · constructor
    · rintro ⟨x, hx, heq⟩
      rcases Relation.ReflTransGen.cases_tail hx with heq' | ⟨y, hy, -, k, hk, rfl, -⟩
      · obtain ⟨-, h2⟩ := Prod.mk.inj heq'
        rw [h2] at heq
        have hbefore := congrArg (beforeLast 47) heq
        have hafter := congrArg (afterLast 47) heq
        rw [beforeLast_inFolder hn, beforeLast_inFolder h.name] at hbefore
        rw [afterLast_inFolder hn, afterLast_inFolder h.name] at hafter
        exact ⟨hbefore.symm, hafter.symm⟩
      · have hbefore := congrArg (beforeLast 47) heq
        rw [beforeLast_append _ (notMem_of_isValidName hk), beforeLast_inFolder hn] at hbefore
        exact absurd hbefore (h.ne_new hq hex hy)
    · rintro ⟨rfl, rfl⟩
      exact ⟨_, Relation.ReflTransGen.refl, rfl⟩

/-- The columns of an item that is neither of the two folders. -/
theorem rest_of_columnOf {p c : Bytes} (hp : IsPath p) (hmeta : p ≠ ascii "metadata")
    (ht : p ≠ target) (hs : p ≠ parent) (hc : ColumnOf p c) : R' c = T c := by
  have hne : ∀ folder, IsFolderPath folder → p ≠ folder → c ≠ metaCol folder := by
    rintro folder hfolder hpf rfl
    exact (columnOf_metaCol hfolder hp hc).elim (fun hand => hpf hand.2) fun hand => hmeta hand.2
  exact h.rest c (hne _ h.target_path ht) (hne _ h.parent_path hs)

/-- The same of an item that was carried. -/
theorem rest_of_new {x : Bytes × Bytes} {c : Bytes}
    (hx : x ∈ Found (pairsOf R) (inFolder parent m, inFolder target m)) (hc : ColumnOf x.2 c) :
    R' c = T c :=
  h.rest_of_columnOf (path_new_of_found h.new_path hx) (h.ne_metadata hx)
    (h.ne_new h.target_path h.target_ex hx) (h.ne_new h.parent_path h.parent_ex hx) hc

/-- A file that was carried has its chunks. -/
theorem chunks_new {x : Bytes × Bytes}
    (hx : x ∈ Found (pairsOf R) (inFolder parent m, inFolder target m))
    (hfile : R x.1 = some kvFile) :
    ∃ n, Chunks R' x.2 n ∧ bytesOf R' x.2 = bytesOf R x.1 := by
  have hx1 := (path_old_of_found h.old_path hx).notMem_comma
  have hx2 := (path_new_of_found h.new_path hx).notMem_comma
  obtain ⟨n, hch, hplaced⟩ := (h.carried.placed x hx).file hfile
  have hT := hplaced.chunks hch
  refine ⟨n, hT.congr fun c hc => h.rest_of_new hx hc, ?_⟩
  rw [hT.bytesOf_congr hx2 fun c hc => h.rest_of_new hx hc]
  exact hplaced.bytes hch hx1 hx2

/-- A folder that was carried lists its children. -/
theorem listsChildren_new {x : Bytes × Bytes}
    (hx : x ∈ Found (pairsOf R) (inFolder parent m, inFolder target m))
    (hfolder : R x.1 = some kvFolder) : ListsChildren R' x.2 := by
  have hx1 := path_old_of_found h.old_path hx
  have hx2 := path_new_of_found h.new_path hx
  have hlists := h.good.listings x.1 (Or.inr hx1) (Or.inr hfolder)
  have hmoved : ∀ n, isValidName n = true → movedChild x.2 (inFolder x.1 n) = inFolder x.2 n := by
    intro n hn
    rw [hx1.inFolder_eq, hx2.inFolder_eq]
    exact TreeMove.relocate.target_child x.2 x.1 n (isValidName_ne_nil hn)
      (notMem_of_isValidName hn)
  have hentries : entriesOf R' x.2 = (entriesOf R x.1).map (movedChild x.2) := by
    refine entriesOf_join ?_ fun e he => ?_
    · rw [hx2.metaCol_eq, h.rest_of_new hx (columnOf_metadata _)]
      exact ((h.carried.placed x hx).folder hfolder).2.2.2
    · obtain ⟨e', he', rfl⟩ := List.mem_map.mp he
      obtain ⟨n, hn, rfl, -⟩ := (hlists.mem_iff e').mp he'
      have hpath := IsPath.inFolder (Or.inr hx2) hn
      rw [hmoved n hn]
      exact ⟨hpath.notMem_comma, hpath.ne_nil⟩
  refine ⟨?_, fun e => ?_⟩
  · rw [hentries]
    refine hlists.nodup.map_on fun e he e' he' heq => ?_
    obtain ⟨n, hn, rfl, -⟩ := (hlists.mem_iff e).mp he
    obtain ⟨n', hn', rfl, -⟩ := (hlists.mem_iff e').mp he'
    rw [hmoved n hn, hmoved n' hn'] at heq
    rw [inFolder_inj heq]
  · rw [hentries, List.mem_map]
    constructor
    · rintro ⟨e', he', rfl⟩
      obtain ⟨n, hn, rfl, hlive⟩ := (hlists.mem_iff e').mp he'
      rw [hx1.inFolder_eq] at hlive
      refine ⟨n, hn, hmoved n hn, ?_⟩
      rw [hmoved n hn, hx2.inFolder_eq]
      exact (h.live_new_child hx hn).mpr hlive
    · rintro ⟨n, hn, rfl, hlive⟩
      rw [hx2.inFolder_eq] at hlive
      refine ⟨inFolder x.1 n, (hlists.mem_iff _).mpr ⟨n, hn, rfl, ?_⟩, hmoved n hn⟩
      rw [hx1.inFolder_eq]
      exact (h.live_new_child hx hn).mp hlive

/-- So does a folder elsewhere. -/
theorem listsChildren_elsewhere {q : Bytes} (hq : IsFolderPath q) (hex : Existing R q)
    (hu : q ≠ [] → ¬Under (inFolder parent m) q) : ListsChildren R' q := by
  have hlists := h.good.listings q hq hex
  have hentries := h.entriesOf_elsewhere hq hex hu
  refine ⟨?_, fun e => ?_⟩
  · rw [hentries]
    split_ifs
    · refine (List.nodup_append.mpr ⟨hlists.nodup.filter _, List.nodup_singleton _, ?_⟩)
      intro e he e' he' heq
      obtain ⟨n, hn, rfl, hlive⟩ := (hlists.mem_iff e).mp (List.mem_filter.mp he).1
      rw [List.mem_singleton.mp he'] at heq
      exact h.free (heq ▸ hlive)
    · rw [List.append_nil]
      exact hlists.nodup.filter _
  · rw [hentries, List.mem_append, List.mem_filter, hlists.mem_iff, decide_eq_true_iff]
    constructor
    · rintro (⟨⟨n, hn, rfl, hlive⟩, hne⟩ | he)
      · exact ⟨n, hn, rfl, (h.live_child hq hex hu hn).mpr (Or.inl ⟨hlive, hne⟩)⟩
      · split_ifs at he with hqt
        · obtain rfl := List.mem_singleton.mp he
          subst hqt
          exact ⟨m, h.name, rfl, (h.live_child hq hex hu h.name).mpr (Or.inr ⟨rfl, rfl⟩)⟩
        · exact absurd he List.not_mem_nil
    · rintro ⟨n, hn, rfl, hlive⟩
      rcases (h.live_child hq hex hu hn).mp hlive with ⟨hR, hne⟩ | ⟨rfl, rfl⟩
      · exact Or.inl ⟨⟨n, hn, rfl, hR⟩, hne⟩
      · rw [if_pos rfl]
        exact Or.inr (List.mem_singleton_self _)

/-- **The row is in good order again.** -/
theorem wellFormed (hnames : isErr (inFolder target m) = false) : WellFormed R' := by
  refine ⟨fun folder n hfolder hn hlive => ?_, fun q hq hex => ?_, fun q hq hfile => ?_,
    fun p hp hlive => ?_, h.not_live_metadata⟩
  · rw [h.existing_iff hfolder]
    rcases (h.live_iff (IsPath.inFolder hfolder hn)).mp hlive with ⟨x, hx, heq⟩ | ⟨hu, hR⟩
    · have hbefore := congrArg (beforeLast 47) heq
      rw [beforeLast_inFolder hn] at hbefore
      rcases Relation.ReflTransGen.cases_tail hx with rfl | ⟨y, hy, hyfolder, k, hk, rfl, -⟩
      · rw [beforeLast_inFolder h.name] at hbefore
        exact Or.inr (hbefore ▸ ⟨h.target_ex, h.target_apart⟩)
      · rw [beforeLast_append _ (notMem_of_isValidName hk)] at hbefore
        exact Or.inl ⟨y, hy, hbefore, hyfolder⟩
    · refine Or.inr ⟨h.good.parents folder n hfolder hn hR, fun hne hunder => hu ?_⟩
      rw [(hfolder.resolve_left hne).inFolder_eq]
      exact hunder.trans (under_slash _ n)
  · rcases (h.existing_iff hq).mp hex with ⟨x, hx, rfl, hfolder⟩ | ⟨hR, hu⟩
    · exact h.listsChildren_new hx hfolder
    · exact h.listsChildren_elsewhere hq hR hu
  · rcases (h.marker_iff hq (Or.inl rfl)).mp hfile with ⟨x, hx, rfl, hR⟩ | ⟨hu, hR⟩
    · obtain ⟨n, hch, -⟩ := h.chunks_new hx hR
      exact ⟨n, hch⟩
    · obtain ⟨n, hch⟩ := h.good.files q hq hR
      have hne : ∀ folder, Existing R folder → q ≠ folder := by
        rintro folder hex rfl
        rcases hex with rfl | hex
        · exact hq.ne_nil rfl
        · rw [hR] at hex
          exact absurd hex (by decide)
      refine ⟨n, hch.congr fun c hc => ?_⟩
      rw [h.rest_of_columnOf hq (fun heq => h.good.root (heq ▸ Or.inl hR)) (hne _ h.target_ex)
        (hne _ h.parent_ex) hc]
      exact h.elsewhere hq (Or.inl hR) hu hc
  · rcases (h.live_iff hp).mp hlive with ⟨x, hx, rfl⟩ | ⟨-, hR⟩
    · obtain ⟨t, rfl, ht, -⟩ := exists_of_found hx
      rcases t with _ | ⟨y, t⟩
      · simpa using hnames
      · rw [ht y rfl]
        exact (isErr_append (by decide) (by decide) _ t).trans hnames
    · exact h.good.names p hp hR

/-- **The folder was moved.** -/
theorem folderMoved (hnames : isErr (inFolder target m) = false) :
    FolderMoved R R' (inFolder parent m) target (inFolder target m) := by
  have hpair : ∀ t, (∀ x ∈ t.head?, x = 47) → IsPath (inFolder parent m ++ t) →
      Live R (inFolder parent m ++ t) → (inFolder parent m ++ t, inFolder target m ++ t) ∈
        Found (pairsOf R) (inFolder parent m, inFolder target m) := by
    intro t ht hp hlive
    obtain ⟨x, hx, heq⟩ := h.exists_pair hp ⟨t, rfl, fun y hy => Or.inl (ht y hy)⟩ hlive
    obtain ⟨u, rfl, -⟩ := exists_of_found hx
    rwa [List.append_cancel_left heq] at hx
  refine ⟨fun t ht hp hlive => ?_, fun p hp hu hlive => ?_, fun p hp hu hlive => ?_, h.gained, ?_,
    fun c hct hcs hc => ?_, h.wellFormed hnames⟩
  · have hx := hpair t ht hp hlive
    refine ⟨?_, fun hfile => ?_⟩
    · exact (h.rest_of_new hx (ColumnOf.refl _)).trans (h.marker_new hx).1
    · obtain ⟨n, -, hbytes⟩ := h.chunks_new hx hfile
      exact hbytes
  · rcases (h.live_iff hp).mp hlive with ⟨x, hx, rfl⟩ | ⟨-, hR⟩
    · have hR := (h.marker_new hx).2
      obtain ⟨t, rfl, -⟩ := exists_of_found hx
      exact ⟨t, rfl, hR⟩
    · exact absurd hu (h.not_under_new hp hR)
  · rcases (h.live_iff hp).mp hlive with ⟨x, hx, rfl⟩ | ⟨hnot, -⟩
    · exact h.apart.not_under hu (under_new_of_found hx)
    · exact hnot hu
  · rw [beforeLast_inFolder h.name]
    exact h.lost
  · rw [beforeLast_inFolder h.name] at hcs
    rw [h.rest c hct hcs]
    refine h.carried.outside c fun x hx => ?_
    have hR := (h.marker_new hx).2
    obtain ⟨t, rfl, ht, -⟩ := exists_of_found hx
    exact hc t ht hR

end HandedOver

/-! ### The request -/

/-- The guards of `webStorageMoveFolder` let a request pass: there is a worker, the folder
does not go into itself, and nothing on the listing of the target has its name. -/
structure MayMove (master : Master) (kvs : Tablet) (b source target : Bytes) : Prop where
  /-- The worker. -/
  reached : Reached master b
  /-- Not into itself. -/
  apart : ¬(target = source ∨ (source ++ [47]).isPrefixOf target = true)
  /-- The name is new. -/
  fresh : afterLast 47 source ∉ (splitStringStorage (if isErr (kvs.text b (metaCol target)) then []
    else kvs.text b (metaCol target))).map (afterLast 47)
  /-- There is a source. -/
  source : source ≠ []

/-- Past its guards the request moves the folder. -/
theorem run_webStorageMoveFolder {source target : Bytes} (h : MayMove master kvs b source target)
    (fuel : ℕ) : (webStorageMoveFolder b fuel source target).run (Call.exec master) kvs =
      (moveFolder b fuel source target >>= fun _ =>
        (pure (.ok (.folderMoved source target)) : Handler Answer)).run (Call.exec master) kvs := by
  rw [webStorageMoveFolder, onWorker, run_lookup_bind, if_neg (by rw [h.reached]; decide),
    if_neg h.apart, run_Get_bind]
  dsimp only
  rw [if_neg h.fresh, if_neg h.source]

/-- A target that the guards let pass is not below the folder. -/
theorem MayMove.not_under {source target : Bytes} (h : MayMove master kvs b source target)
    (htarget : IsPath target) : ¬Under source target := by
  intro hu
  rcases hu.eq_or_slash htarget with heq | ⟨t, heq⟩
  · exact h.apart (Or.inl heq)
  · refine h.apart (Or.inr (List.isPrefixOf_iff_prefix.mpr ⟨t, ?_⟩))
    rw [heq, List.append_assoc, List.singleton_append]

/-- In a row in good order the guards look for the new path. -/
theorem MayMove.not_live {source target : Bytes} (h : MayMove master kvs b source target)
    (hgood : WellFormed (kvs.row b)) (hsource : IsPath source) (htarget : IsFolderPath target)
    (hex : Existing (kvs.row b) target) :
    ¬Live (kvs.row b) (inFolder target (afterLast 47 source)) := by
  obtain ⟨parent, m, hparent, hm, rfl⟩ := hsource.exists_inFolder
  rw [afterLast_inFolder hm]
  intro hlive
  have hlists := hgood.listings target htarget hex
  obtain ⟨-, v, hv, hmem⟩ := mem_entriesOf.mp ((hlists.mem_iff _).mpr ⟨m, hm, rfl, hlive⟩)
  refine h.fresh ?_
  rw [Tablet.text_of_row hv, hlists.not_isErr htarget hgood.names hv, if_neg (by decide),
    afterLast_inFolder hm]
  exact List.mem_map.mpr ⟨_, hmem, afterLast_inFolder hm⟩

/-- What `moveFolder` makes of a listing that can be read. -/
theorem text_gained {R : Row} {folder entry : Bytes} {t : Tablet}
    (hlists : ∀ v, R (metaCol folder) = some v → isErr v = false)
    (h : t.row b (metaCol folder) = R (metaCol folder)) :
    (if isErr (t.text b (metaCol folder)) ∨ t.text b (metaCol folder) = [] then entry
      else t.text b (metaCol folder) ++ 44 :: entry) = gained (R (metaCol folder)) entry := by
  rcases hv : R (metaCol folder) with _ | v
  · have herr := (Tablet.notFound_of_row (h.trans hv)).isErr
    exact if_pos (Or.inl herr)
  · rw [Tablet.text_of_row (h.trans hv), hlists v hv]
    simp [gained]

/-- The folder goes from one listing to the other. -/
theorem handedOver_of_run {parent target m : Bytes} {t s : Tablet}
    (h : Transplanted (kvs.row b) (t.row b) (inFolder parent m) (inFolder target m))
    (hm : isValidName m = true) (hparent : IsFolderPath parent) (htarget : IsFolderPath target)
    (hex : Existing (kvs.row b) target) (hu : target ≠ [] → ¬Under (inFolder parent m) target)
    (hrun : (removeEntry b parent (inFolder parent m)).run (Call.exec master)
      (t.put b (metaCol target) (if isErr (t.text b (metaCol target)) ∨
          t.text b (metaCol target) = [] then inFolder target m
        else t.text b (metaCol target) ++ 44 :: inFolder target m)) = (.ok (), s)) :
    HandedOver (kvs.row b) (t.row b) (s.row b) parent target m := by
  have hlists := h.good.listings target htarget hex
  have hsame := h.listing_elsewhere htarget hex hu
  rw [text_gained (fun v hv => hlists.not_isErr htarget h.good.names hv) hsame] at hrun
  have hparent_ex := h.good.parents parent m hparent hm (Or.inr h.folder)
  have hparent_same : t.row b (metaCol parent) = kvs.row b (metaCol parent) := by
    refine h.listing_elsewhere hparent hparent_ex fun hne hunder => ?_
    rw [(hparent.resolve_left hne).inFolder_eq] at hunder
    exact not_under_child_self hunder
  have hne : metaCol target ≠ metaCol parent := by
    intro heq
    obtain rfl := metaCol_inj heq
    exact h.free (Or.inr h.folder)
  -- the folder is on the listing it leaves
  obtain ⟨-, v, hv, -⟩ := mem_entriesOf.mp
    (((h.good.listings parent hparent hparent_ex).mem_iff _).mpr ⟨m, hm, rfl, Or.inr h.folder⟩)
  refine ⟨h, hm, hparent, htarget, hex, hu, ?_, ⟨v, hv, ?_⟩, fun c hct hcs => ?_⟩
  · rw [removeEntry_of_ne hne hrun, Tablet.row_put, Function.update_self]
  · refine removeEntry_metaCol ?_ hrun
    rw [Tablet.row_put, Function.update_of_ne hne.symm, hparent_same, hv]
  · rw [removeEntry_of_ne hcs hrun, Tablet.row_put, Function.update_of_ne hct]

/-- **A folder that is moved takes along exactly its subtree.** -/
theorem webStorageMoveFolder_exact {source target : Bytes} (hgood : WellFormed (kvs.row b))
    (hmay : MayMove master kvs b source target) (hsource : IsPath source)
    (hfolder : kvs.row b source = some kvFolder) (htarget : IsFolderPath target)
    (hex : Existing (kvs.row b) target)
    (hmeta : inFolder target (afterLast 47 source) ≠ ascii "metadata")
    (hnames : isErr (inFolder target (afterLast 47 source)) = false) :
    ∃ n, ∃ s : Tablet,
      (∀ fuel, n ≤ fuel → (webStorageMoveFolder b fuel source target).run (Call.exec master) kvs =
        (.ok (.ok (.folderMoved source target)), s)) ∧
      FolderMoved (kvs.row b) (s.row b) source target (inFolder target (afterLast 47 source)) := by
  have hfree := hmay.not_live hgood hsource htarget hex
  obtain ⟨parent, m, hparent, hm, rfl⟩ := hsource.exists_inFolder
  rw [afterLast_inFolder hm] at hmeta hnames hfree ⊢
  have hu : target ≠ [] → ¬Under (inFolder parent m) target := fun hne =>
    hmay.not_under (htarget.resolve_left hne)
  have hnew := IsPath.inFolder htarget hm
  have happart : Apart (inFolder parent m) (inFolder target m) := by
    refine ⟨fun hunder => ?_, fun hunder => hgood.free hfree _ hsource hunder (Or.inr hfolder)⟩
    rcases under_inFolder htarget hm hunder with heq | ⟨hpath, hunder⟩
    · exact hfree (heq ▸ Or.inr hfolder)
    · exact hu hpath.ne_nil hunder
  obtain ⟨n, t, hrun, hcarried⟩ := hgood.carried hsource hnew happart hfolder master
  have htrans : Transplanted (kvs.row b) (t.row b) (inFolder parent m) (inFolder target m) :=
    ⟨hgood, hsource, hnew, happart, hfree, hmeta, hfolder, hcarried⟩
  obtain ⟨s, hs, -⟩ := @run_removeEntry b master (t.put b (metaCol target)
    (if isErr (t.text b (metaCol target)) ∨ t.text b (metaCol target) = [] then inFolder target m
      else t.text b (metaCol target) ++ 44 :: inFolder target m)) parent (inFolder parent m)
  refine ⟨n, s, fun fuel hle => ?_,
    (handedOver_of_run htrans hm hparent htarget hex hu hs).folderMoved hnames⟩
  have hmove : (moveFolder b fuel (inFolder parent m) target).run (Call.exec master) kvs =
      (.ok (), s) := by
    rw [moveFolder, renameFolderMoveRec_eq, afterLast_inFolder hm, beforeLast_inFolder hm,
      Prog.run_bind_of_ok _ (hrun fuel hle), run_Get_bind, run_Put_bind]
    exact hs
  rw [run_webStorageMoveFolder hmay, Prog.run_bind_of_ok _ hmove]
  rfl

/-- A folder with a file in it, and an empty folder. -/
def noteAndFolder : Tablet :=
  (noteInFolder.put annsRow (metaCol []) (ascii "a,b")).put annsRow (ascii "b") kvFolder

example : noteAndFolder.row annsRow (ascii "a/x") = some kvFile := by decide +kernel

theorem live_noteAndFolder {p : Bytes} : Live (noteAndFolder.row annsRow) p ↔
    p ∈ [ascii "a", ascii "a/x", ascii "b"] := by
  constructor
  · intro h
    have hall : ∀ c ∈ noteAndFolder.columns annsRow, (noteAndFolder.row annsRow c = some kvFile ∨
        noteAndFolder.row annsRow c = some kvFolder) →
          c ∈ [ascii "a", ascii "a/x", ascii "b"] := by
      decide +kernel
    exact hall p (Tablet.mem_columns.mpr (h.elim (by simp [·]) (by simp [·]))) h
  · have hall : ∀ c ∈ [ascii "a", ascii "a/x", ascii "b"],
        (noteAndFolder.row annsRow c = some kvFile ∨
          noteAndFolder.row annsRow c = some kvFolder) := by
      decide +kernel
    exact hall p

theorem folder_noteAndFolder {q : Bytes} (h : noteAndFolder.row annsRow q = some kvFolder) :
    q = ascii "a" ∨ q = ascii "b" := by
  have hmem := live_noteAndFolder.mp (Or.inr h)
  simp only [List.mem_cons, List.not_mem_nil, or_false] at hmem
  rcases hmem with rfl | rfl | rfl
  · exact Or.inl rfl
  · exact absurd h (by decide +kernel)
  · exact Or.inr rfl

theorem file_noteAndFolder {q : Bytes} (h : noteAndFolder.row annsRow q = some kvFile) :
    q = ascii "a/x" := by
  have hmem := live_noteAndFolder.mp (Or.inl h)
  simp only [List.mem_cons, List.not_mem_nil, or_false] at hmem
  rcases hmem with rfl | rfl | rfl
  · exact absurd h (by decide +kernel)
  · rfl
  · exact absurd h (by decide +kernel)

/-- The listings have the paths that go on from the folder. -/
theorem listsChildren_noteAndFolder {q : Bytes} (h : Existing (noteAndFolder.row annsRow) q) :
    ListsChildren (noteAndFolder.row annsRow) q := by
  have hentries : entriesOf (noteAndFolder.row annsRow) q =
      [ascii "a", ascii "a/x", ascii "b"].filter fun e => beforeLast 47 e = q := by
    rcases h with rfl | h
    · decide +kernel
    · rcases folder_noteAndFolder h with rfl | rfl
      · decide +kernel
      · decide +kernel
  refine ⟨?_, fun e => ?_⟩
  · rw [hentries]
    exact List.Nodup.filter _ (by decide)
  · rw [hentries, List.mem_filter, decide_eq_true_iff]
    constructor
    · rintro ⟨hmem, rfl⟩
      have hpath : ∀ e ∈ [ascii "a", ascii "a/x", ascii "b"], IsPath e := by decide
      obtain ⟨folder, n, -, hn, rfl⟩ := (hpath e hmem).exists_inFolder
      rw [beforeLast_inFolder hn]
      exact ⟨n, hn, rfl, live_noteAndFolder.mpr hmem⟩
    · rintro ⟨n, hn, rfl, hlive⟩
      exact ⟨live_noteAndFolder.mp hlive, beforeLast_inFolder hn⟩

theorem wellFormed_noteAndFolder : WellFormed (noteAndFolder.row annsRow) := by
  refine ⟨fun folder n _ hn hlive => ?_, fun q _ hq => listsChildren_noteAndFolder hq,
    fun q _ hq => ⟨1, ?_⟩, fun p _ hp => ?_, fun hp => ?_⟩
  · have hall : ∀ c ∈ [ascii "a", ascii "a/x", ascii "b"],
        beforeLast 47 c = [] ∨ noteAndFolder.row annsRow (beforeLast 47 c) = some kvFolder := by
      decide +kernel
    have hfolder := hall _ (live_noteAndFolder.mp hlive)
    rwa [beforeLast_inFolder hn] at hfolder
  · obtain rfl := file_noteAndFolder hq
    exact ⟨Nat.one_pos, by decide +kernel, by decide +kernel⟩
  · have hall : ∀ c ∈ [ascii "a", ascii "a/x", ascii "b"], isErr c = false := by decide
    exact hall p (live_noteAndFolder.mp hp)
  · exact absurd (live_noteAndFolder.mp hp) (by decide)

/-- The folder with the file is moved into the other one. -/
theorem noteAndFolder_moved : ∃ n, ∃ s : Tablet,
    (∀ fuel, n ≤ fuel → (webStorageMoveFolder annsRow fuel (ascii "a") (ascii "b")).run
      (Call.exec Master.first) noteAndFolder =
        (.ok (.ok (.folderMoved (ascii "a") (ascii "b"))), s)) ∧
    FolderMoved (noteAndFolder.row annsRow) (s.row annsRow) (ascii "a") (ascii "b")
      (inFolder (ascii "b") (afterLast 47 (ascii "a"))) := by
  refine webStorageMoveFolder_exact wellFormed_noteAndFolder ⟨?_, ?_, ?_, ?_⟩ (by decide)
    (by decide +kernel) (Or.inr (by decide)) (Or.inr (by decide +kernel)) (by decide) (by decide)
  · rw [Reached]
    decide
  · decide
  · decide +kernel
  · decide

end PennCloud
