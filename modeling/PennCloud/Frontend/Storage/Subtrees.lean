import PennCloud.Frontend.Storage.Effects

/-!
# Complete subtrees

A live item is **accounted for** when the folder it is in is there and has it on its
listing (`PennCloud.Accounted`), and a subtree is complete when all live items below
its root are (`PennCloud.CompleteBelow`). In a complete subtree nothing lives below
what is not a folder (`PennCloud.CompleteBelow.not_live`), so going through the
listings finds everything there is. This is what the two recursions need:

* deleting the root of a complete subtree whose listings name own children leaves
  nothing of it alive (`PennCloud.free_deleteRec`);
* moving it to a free path leaves nothing at the old path and a complete subtree at
  the new one (`PennCloud.completeBelow_moveTree`).
-/

namespace PennCloud

open Wire Calls Text

/-! ### Accounted items -/

/-- A name is on the listing of a folder. -/
def Listed (R : Row) (folder n : Bytes) : Prop :=
  ∃ v, R (metaCol folder) = some v ∧ ∃ e ∈ splitStringStorage v, e ≠ [] ∧ afterLast 47 e = n

/-- **An item is accounted for**: its folder is there and lists it. -/
def Accounted (R : Row) (folder n : Bytes) : Prop := Existing R folder ∧ Listed R folder n

/-- **A complete subtree**: everything that lives below its root is accounted for. -/
def CompleteBelow (R : Row) (a : Bytes) : Prop :=
  ∀ folder n, IsPath folder → Under a folder → isValidName n = true →
    Live R (inFolder folder n) → Accounted R folder n

section Complete

variable {R R' : Row} {a : Bytes}

theorem IsPath.metaCol_eq {folder : Bytes} (h : IsPath folder) :
    metaCol folder = folder ++ ascii "-metadata" := if_neg h.ne_nil

/-- Completeness is about the items and listings of the subtree. -/
theorem CompleteBelow.congr (h : CompleteBelow R a)
    (heq : ∀ c, Under a c → ¬IsContent c → R' c = R c) : CompleteBelow R' a := by
  intro folder n hfolder hu hn hlive
  have hpath := IsPath.inFolder (Or.inr hfolder) hn
  have hmeta : Under a (metaCol folder) := by
    rw [hfolder.metaCol_eq]
    exact hu.trans (under_metadata folder)
  rw [Live, heq _ (hu.trans (hfolder.under_inFolder n)) hpath.not_isContent] at hlive
  obtain ⟨hex, hlisted⟩ := h folder n hfolder hu hn hlive
  constructor
  · rw [Existing, heq _ hu hfolder.not_isContent]
    exact hex
  · rw [Listed, heq _ hmeta (not_isContent_metaCol folder)]
    exact hlisted

theorem CompleteBelow.below {a' : Bytes} (h : CompleteBelow R a) (hu : Under a a') :
    CompleteBelow R a' :=
  fun folder n hfolder hu' => h folder n hfolder (hu.trans hu')

/-- Where nothing lives there is nothing to account for. -/
theorem Free.completeBelow (h : Free R a) : CompleteBelow R a := by
  intro folder n hfolder hu hn hlive
  exact absurd hlive (h _ (IsPath.inFolder (Or.inr hfolder) hn)
    (hu.trans (hfolder.under_inFolder n)))

theorem Free.below {a' : Bytes} (h : Free R a) (hu : Under a a') : Free R a' :=
  fun p hp hu' => h p hp (hu.trans hu')

theorem Free.congr (h : Free R a) (heq : ∀ c, Under a c → ¬IsContent c → R' c = R c) :
    Free R' a := by
  intro p hp hu hlive
  rw [Live, heq p hu hp.not_isContent] at hlive
  exact h p hp hu hlive

/-- **Nothing lives below what is not a folder.** -/
theorem CompleteBelow.not_live (h : CompleteBelow R a) (ha : R a ≠ some kvFolder) {p : Bytes}
    (hp : IsPath p) : Under a p → p ≠ a → ¬Live R p := by
  refine hp.induction (P := fun p => Under a p → p ≠ a → ¬Live R p) ?_
  intro folder n hfolder hn ih hu hne hlive
  rcases under_inFolder hfolder hn hu with heq | ⟨hfolder, hu'⟩
  · exact hne heq
  · -- the folder would have to be there, so it is not below either
    have hex := (h folder n hfolder hu' hn hlive).1.resolve_left hfolder.ne_nil
    by_cases heq : folder = a
    · exact ha (heq ▸ hex)
    · exact ih hfolder hu' heq (Or.inr hex)

theorem CompleteBelow.free (h : CompleteBelow R a) (ha : ¬Live R a) : Free R a := by
  intro p hp hu
  by_cases hpa : p = a
  · rwa [hpa]
  · exact h.not_live (fun hf => ha (Or.inr hf)) hp hu hpa

/-- What is below an item is below one of its children, or is one. -/
theorem exists_child {p : Bytes} (hp : IsPath p) :
    Under a p → p ≠ a → ∃ l, isValidName l = true ∧ Under (a ++ 47 :: l) p := by
  refine hp.induction
    (P := fun p => Under a p → p ≠ a → ∃ l, isValidName l = true ∧ Under (a ++ 47 :: l) p) ?_
  intro folder n hfolder hn ih hu hne
  rcases under_inFolder hfolder hn hu with heq | ⟨hfolder, hu'⟩
  · exact absurd heq hne
  · by_cases heq : folder = a
    · refine ⟨n, hn, ?_⟩
      rw [hfolder.inFolder_eq, heq]
      exact Under.refl _
    · obtain ⟨l, hl, hul⟩ := ih hfolder hu' heq
      exact ⟨l, hl, hul.trans (hfolder.under_inFolder n)⟩

/-- An item that is not alive, and none of whose children has anything alive. -/
theorem free_of_children (ha : ¬Live R a)
    (h : ∀ l, isValidName l = true → Free R (a ++ 47 :: l)) : Free R a := by
  intro p hp hu
  by_cases hpa : p = a
  · rwa [hpa]
  · obtain ⟨l, hl, hul⟩ := exists_child hp hu hpa
    exact h l hl p hp hul

end Complete

/-! ### Deleting -/

/-- The listing at a path, if there is one, can be read and names own children. -/
def OwnEntries (R : Row) (q : Bytes) : Prop :=
  ∀ v, R (q ++ ascii "-metadata") = some v → isErr v = false ∧
    ∀ e ∈ splitStringStorage v, e = [] ∨ ∃ l, isValidName l = true ∧ e = q ++ 47 :: l

/-- The listings of a subtree can all be gone through. -/
def Deletable (R : Row) (a : Bytes) : Prop :=
  ∀ q, IsPath q → Under a q → R q = some kvFolder → OwnEntries R q

theorem Deletable.congr {R R' : Row} {a : Bytes} (h : Deletable R a)
    (heq : ∀ c, Under a c → ¬IsContent c → R' c = R c) : Deletable R' a := by
  intro q hq hu hfolder
  rw [heq q hu hq.not_isContent] at hfolder
  rw [OwnEntries, heq _ (hu.trans (under_metadata q)) (not_isContent_metadata q)]
  exact h q hq hu hfolder

theorem Deletable.below {R : Row} {a a' : Bytes} (h : Deletable R a) (hu : Under a a') :
    Deletable R a' :=
  fun q hq hu' => h q hq (hu.trans hu')

theorem Free.deletable {R : Row} {a : Bytes} (h : Free R a) : Deletable R a :=
  fun q hq hu hfolder => absurd (Or.inr hfolder) (h q hq hu)

section Delete

variable {b : Bytes} {master : Master} {kvs s : Tablet}

theorem writes_deleteChunks (p : Bytes) :
    Writes b (fun c => c = p ++ ascii "-metadata" ∨ IsContent c) (deleteChunks b p) := by
  rw [deleteChunks]
  refine Writes.get fun _ => Writes.ite (fun _ => ?_) fun _ => trivial
  refine Writes.bind (Writes.each fun chunk _ => ?_) fun _ =>
    Writes.delete (Or.inl rfl) fun _ => trivial
  exact Writes.delete (Or.inr (isContent_append chunk)) fun _ => trivial

/-- What is not a folder is deleted as a file. -/
theorem deleteRec_file {fuel : ℕ} {p : Bytes} (hp : kvs.row b p ≠ some kvFolder)
    (h : (deleteRec b fuel p).run (Call.exec master) kvs = (.ok (), s)) :
    s.row b p = none ∧
      KeepsBut (fun c => c = p ∨ c = p ++ ascii "-metadata") (kvs.row b) (s.row b) := by
  rcases fuel with _ | fuel
  · exact absurd (Prod.mk.inj h).1 (by simp)
  · have hmarker : kvs.text b p ≠ kvFolder := fun ht =>
      hp ((Tablet.text_eq_iff isErr_kvFolder).mp ht)
    rw [deleteRec, run_Get_bind, if_pos hmarker] at h
    obtain ⟨_, t, ht, hrest⟩ := Prog.run_bind_ok _ h
    rw [run_Delete_bind, run_Delete_bind] at hrest
    obtain ⟨-, rfl⟩ := Prod.mk.inj hrest
    rw [Tablet.row_delete, Tablet.row_delete]
    refine ⟨Function.update_self .., fun c hc hX => ?_⟩
    obtain ⟨hX1, hX2⟩ := not_or.mp hX
    have hcontent : c ≠ p ++ ascii "-content" := by
      rintro rfl
      exact hc (isContent_append p)
    have hrow := (writes_deleteChunks (b := b) p).row_eq master kvs (not_or.mpr ⟨hX2, hc⟩)
    rw [ht] at hrow
    rw [Function.update_of_ne hX1, Function.update_of_ne hcontent]
    exact hrow

/-- An empty entry is nothing to delete. -/
theorem deleteRec_nil {fuel : ℕ} (hblank : Blank (kvs.row b))
    (h : (deleteRec b fuel []).run (Call.exec master) kvs = (.ok (), s)) :
    KeepsBut (fun _ => False) (kvs.row b) (s.row b) := by
  have hnil : kvs.row b [] = none := hblank [] (Or.inl rfl)
  have hblank' : Blank (s.row b) := by
    have hkeep := @KeepsBlank.deleteRec b master fuel [] kvs hblank
    rwa [h] at hkeep
  obtain ⟨-, hkeeps⟩ := deleteRec_file (by rw [hnil]; simp) h
  intro c hc _
  by_cases hX : c = [] ∨ c = [] ++ ascii "-metadata"
  · have hc' : IsBlank c := hX.imp_right Or.inl
    rw [hblank c hc', hblank' c hc']
  · exact hkeeps c hc hX

/-- **A way to delete** complete subtrees with nothing left and nothing else touched. -/
def Deletes (b : Bytes) (master : Master) (delete : Bytes → Handler Unit) : Prop :=
  ∀ {a : Bytes} {kvs s : Tablet}, IsPath a → Blank (kvs.row b) → CompleteBelow (kvs.row b) a →
    Deletable (kvs.row b) a → (delete a).run (Call.exec master) kvs = (.ok (), s) →
      Free (s.row b) a ∧ KeepsBut (Under a) (kvs.row b) (s.row b)

/-- A folder of which the entries `cs` are still to be deleted. -/
structure Deleting (a : Bytes) (R : Row) (cs : List Bytes) (R' : Row) : Prop where
  /-- They are children of the folder. -/
  own : ∀ e ∈ cs, e = [] ∨ ∃ l, isValidName l = true ∧ e = a ++ 47 :: l
  /-- Nothing is kept under an empty path. -/
  blank : Blank R'
  /-- What is not below the folder is as before. -/
  keeps : KeepsBut (Below a) R R'
  /-- Every child can be deleted. -/
  ready : ∀ l, isValidName l = true →
    CompleteBelow R' (a ++ 47 :: l) ∧ Deletable R' (a ++ 47 :: l)
  /-- The others are gone. -/
  gone : ∀ l, isValidName l = true → a ++ 47 :: l ∉ cs → Free R' (a ++ 47 :: l)

/-- One entry more. -/
theorem Deleting.step {fuel : ℕ} (hdel : Deletes b master (deleteRec b fuel)) {a : Bytes}
    (ha : IsPath a) {R : Row} {e : Bytes} {cs : List Bytes}
    (h : Deleting a R (e :: cs) (kvs.row b))
    (hrun : (deleteRec b fuel e).run (Call.exec master) kvs = (.ok (), s)) :
    Deleting a R cs (s.row b) := by
  have hblank : Blank (s.row b) := by
    have hkeep := @KeepsBlank.deleteRec b master fuel e kvs h.blank
    rwa [hrun] at hkeep
  have hown : ∀ e' ∈ cs, e' = [] ∨ ∃ l, isValidName l = true ∧ e' = a ++ 47 :: l :=
    fun e' he' => h.own e' (List.mem_cons_of_mem e he')
  obtain rfl | ⟨l₀, hl₀, rfl⟩ := h.own e List.mem_cons_self
  · have hkeeps := deleteRec_nil h.blank hrun
    have hsame : ∀ c, ¬IsContent c → s.row b c = kvs.row b c := fun c hc => hkeeps c hc id
    refine ⟨hown, hblank, fun c hc hX => (hsame c hc).trans (h.keeps c hc hX), ?_, ?_⟩
    · exact fun l hl => ⟨(h.ready l hl).1.congr fun c _ hc => hsame c hc,
        (h.ready l hl).2.congr fun c _ hc => hsame c hc⟩
    · intro l hl hmem
      refine (h.gone l hl ?_).congr fun c _ hc => hsame c hc
      exact fun hm => (List.mem_cons.mp hm).elim (by simp) hmem
  · obtain ⟨hready, hready'⟩ := h.ready l₀ hl₀
    obtain ⟨hfree, hkeeps⟩ := hdel (ha.append hl₀) h.blank hready hready' hrun
    -- the other children are not touched
    have hother : ∀ l, isValidName l = true → l ≠ l₀ → ∀ c, Under (a ++ 47 :: l) c →
        ¬IsContent c → s.row b c = kvs.row b c := fun l hl hne c hu hc =>
      hkeeps c hc ((Apart.children hl hl₀ hne).not_under hu)
    refine ⟨hown, hblank, fun c hc hX => ?_, fun l hl => ?_, fun l hl hmem => ?_⟩
    · exact (hkeeps c hc fun hu => hX hu.below).trans (h.keeps c hc hX)
    · by_cases hne : l = l₀
      · rw [hne]
        exact ⟨hfree.completeBelow, hfree.deletable⟩
      · exact ⟨(h.ready l hl).1.congr (hother l hl hne), (h.ready l hl).2.congr (hother l hl hne)⟩
    · by_cases hne : l = l₀
      · rw [hne]
        exact hfree
      · refine (h.gone l hl fun hm => ?_).congr (hother l hl hne)
        rcases List.mem_cons.mp hm with heq | hm
        · exact hne (List.cons.inj (List.append_cancel_left heq)).2
        · exact hmem hm

/-- The row once the columns of a folder itself are deleted. -/
def closed (R : Row) (a : Bytes) : Row :=
  Function.update (Function.update R a (some delKvFolder)) (a ++ ascii "-metadata") none

theorem closed_of_ne {R : Row} {a c : Bytes} (h : c ≠ a) (h' : c ≠ a ++ ascii "-metadata") :
    closed R a c = R c := by
  rw [closed, Function.update_of_ne h', Function.update_of_ne h]

theorem not_live_closed {R : Row} {a : Bytes} : ¬Live (closed R a) a := by
  have hne : a ≠ a ++ ascii "-metadata" := fun heq =>
    absurd (List.append_right_eq_self.mp heq.symm) (by decide)
  rw [Live, closed, Function.update_of_ne hne, Function.update_self]
  decide

theorem closed_child {R : Row} {a l c : Bytes} (hu : Under (a ++ 47 :: l) c) :
    closed R a c = R c :=
  closed_of_ne (ne_of_under hu not_under_child_self) (ne_of_under hu (not_under_child (by decide)))

/-- The beginning of the recursion at a folder. -/
theorem run_deleteRec_folder {fuel : ℕ} {a : Bytes} (ha : kvs.row b a = some kvFolder)
    (h : (deleteRec b (fuel + 1) a).run (Call.exec master) kvs = (.ok (), s)) :
    ∃ t : Tablet, t.row b = closed (kvs.row b) a ∧
      ((∀ v, kvs.row b (a ++ ascii "-metadata") = some v → isErr v = true ∨ v = []) ∧ s = t ∨
      ∃ v, kvs.row b (a ++ ascii "-metadata") = some v ∧
        (Prog.each (deleteRec b fuel) (splitStringStorage v)).run (Call.exec master) t =
          (.ok (), s)) := by
  have hne : a ++ ascii "-metadata" ≠ a := fun heq =>
    absurd (List.append_right_eq_self.mp heq) (by decide)
  have hrow : (kvs.put b a delKvFolder).row b (a ++ ascii "-metadata") =
      kvs.row b (a ++ ascii "-metadata") := by
    rw [Tablet.row_put, Function.update_of_ne hne]
  rw [deleteRec, run_Get_bind, if_neg (not_not.mpr (Tablet.text_of_row ha)), run_Put_bind,
    run_Get_bind, run_Delete_bind] at h
  refine ⟨(kvs.put b a delKvFolder).delete b (a ++ ascii "-metadata"), ?_, ?_⟩
  · rw [Tablet.row_delete, Tablet.row_put, closed]
  · split_ifs at h with htext
    · have hv := (Tablet.text_eq_iff htext.2).mp
        (rfl : (kvs.put b a delKvFolder).text b (a ++ ascii "-metadata") = _)
      exact Or.inr ⟨_, hrow.symm.trans hv, h⟩
    · refine Or.inl ⟨fun v hv => ?_, (Prod.mk.inj h).2.symm⟩
      rw [Tablet.text_of_row (hrow.trans hv), not_and_or, not_not, Bool.not_eq_false] at htext
      exact htext.symm

/-- A child that is not on the listing is not alive. -/
theorem CompleteBelow.free_child {R : Row} {a l : Bytes} (h : CompleteBelow R a) (ha : IsPath a)
    (hl : isValidName l = true)
    (hmem : ∀ v, R (a ++ ascii "-metadata") = some v → ∀ e ∈ splitStringStorage v,
      e ≠ [] → afterLast 47 e ≠ l) : Free R (a ++ 47 :: l) := by
  refine (h.below (under_slash a l)).free fun hlive => ?_
  rw [← ha.inFolder_eq] at hlive
  obtain ⟨-, v, hv, e, he, hne, hlast⟩ := h a l ha (Under.refl a) hl hlive
  rw [ha.metaCol_eq] at hv
  exact hmem v hv e he hne hlast

/-- **Deleting a complete subtree** leaves nothing of it, and touches nothing else. -/
theorem free_deleteRec (fuel : ℕ) : Deletes b master (deleteRec b fuel) := by
  induction fuel with
  | zero =>
    intro a kvs s _ _ _ _ h
    exact absurd (Prod.mk.inj h).1 (by simp)
  | succ fuel ih =>
    intro a kvs s ha hblank hcomplete hown h
    by_cases hfolder : kvs.row b a = some kvFolder
    · obtain ⟨t, ht, hcases⟩ := run_deleteRec_folder hfolder h
      -- the columns of the children are those before
      have hready : ∀ l, isValidName l = true → CompleteBelow (t.row b) (a ++ 47 :: l) ∧
          Deletable (t.row b) (a ++ 47 :: l) := by
        intro l _
        rw [ht]
        exact ⟨(hcomplete.below (under_slash a l)).congr fun c hu _ => closed_child hu,
          (hown.below (under_slash a l)).congr fun c hu _ => closed_child hu⟩
      have hclosed : KeepsBut (Under a) (kvs.row b) (t.row b) := by
        intro c _ hu
        rw [ht]
        exact closed_of_ne (ne_of_not_under hu (Under.refl a))
          (ne_of_not_under hu (under_metadata a))
      have hdead : ¬Live (t.row b) a := by
        rw [ht]
        exact not_live_closed
      rcases hcases with ⟨hskip, rfl⟩ | ⟨v, hv, hloop⟩
      · refine ⟨free_of_children hdead fun l hl => ?_, hclosed⟩
        rw [ht]
        refine Free.congr (hcomplete.free_child ha hl fun v hv e he hne => ?_)
          fun c hu _ => closed_child hu
        obtain ⟨herr, -⟩ := hown a ha (Under.refl a) hfolder v hv
        have hv' : v = [] := (hskip v hv).resolve_left (by simp [herr])
        have hnil : e = [] := by simpa [hv', splitStringStorage] using he
        exact absurd hnil hne
      · have hentries := (hown a ha (Under.refl a) hfolder v hv).2
        have hstart : Deleting a (t.row b) (splitStringStorage v) (t.row b) := by
          refine ⟨hentries, ?_, fun _ _ _ => rfl, hready, fun l hl hmem => ?_⟩
          · rw [ht]
            exact hblank.of_row_eq fun c hc => closed_of_ne
              (ne_of_not_under (ha.not_under_blank hc) (Under.refl a))
              (ne_of_not_under (ha.not_under_blank hc) (under_metadata a))
          · rw [ht]
            refine Free.congr (hcomplete.free_child ha hl fun v' hv' e he hne hlast => hmem ?_)
              fun c hu _ => closed_child hu
            obtain rfl : v' = v := Option.some.inj (hv'.symm.trans hv)
            obtain rfl | ⟨l', hl', rfl⟩ := hentries e he
            · exact absurd rfl hne
            · rw [afterLast_append a (notMem_of_isValidName hl')] at hlast
              exact hlast ▸ he
        have hend := Prog.each_inv_ok (Call.exec master)
          (I := fun cs u => Deleting a (t.row b) cs (u.row b))
          (fun e cs u u' hu hrun => hu.step ih ha hrun) hloop hstart
        refine ⟨free_of_children ?_ fun l hl => hend.gone l hl List.not_mem_nil, ?_⟩
        · rw [Live, hend.keeps a ha.not_isContent (ColumnOf.refl a).not_below]
          exact hdead
        · exact fun c hc hu => (hend.keeps c hc fun hb => hu hb.under).trans (hclosed c hc hu)
    · obtain ⟨hnone, hkeeps⟩ := deleteRec_file hfolder h
      refine ⟨fun p hp hu hlive => ?_, fun c hc hu => hkeeps c hc ?_⟩
      · by_cases hpa : p = a
        · rw [Live, hpa, hnone] at hlive
          exact absurd hlive (by simp)
        · rw [Live, hkeeps p hp.not_isContent (not_or.mpr
            ⟨hpa, ne_metadata_of_notMem hp.notMem_dash⟩)] at hlive
          exact hcomplete.not_live hfolder hp hu hpa hlive
      · exact not_or.mpr ⟨ne_of_not_under hu (Under.refl a), ne_of_not_under hu (under_metadata a)⟩

end Delete

/-! ### Moving -/

/-- The recursion goes through all children that are on the listings of a subtree. -/
def Walks (k : TreeMove) (R : Row) (a : Bytes) : Prop :=
  ∀ q, IsPath q → Under a q → R q = some kvFolder → ∀ v, R (q ++ ascii "-metadata") = some v →
    ∀ l, isValidName l = true → q ++ 47 :: l ∈ splitStringStorage v →
      q ++ 47 :: l ∈ k.children q v

theorem Walks.congr {k : TreeMove} {R R' : Row} {a : Bytes} (h : Walks k R a)
    (heq : ∀ c, Under a c → R' c = R c) : Walks k R' a := by
  intro q hq hu hfolder v hv
  rw [heq q hu] at hfolder
  rw [heq _ (hu.trans (under_metadata q))] at hv
  exact h q hq hu hfolder v hv

theorem Walks.below {k : TreeMove} {R : Row} {a a' : Bytes} (h : Walks k R a) (hu : Under a a') :
    Walks k R a' :=
  fun q hq hu' => h q hq (hu.trans hu')

/-- Renaming goes through the whole listing. -/
theorem walks_rename (R : Row) (a : Bytes) : Walks .rename R a := fun _ _ _ _ _ _ _ _ h => h

/-- Moving goes through a listing that can be read. -/
theorem walks_relocate {R : Row} {a : Bytes}
    (h : ∀ q, IsPath q → Under a q → R q = some kvFolder →
      ∀ v, R (q ++ ascii "-metadata") = some v → isErr v = false) : Walks .relocate R a := by
  intro q hq hu hfolder v hv l hl hmem
  show q ++ 47 :: l ∈ movedChildren q v
  rw [movedChildren, h q hq hu hfolder v hv, if_neg (by decide)]
  refine List.mem_filter.mpr ⟨hmem, decide_eq_true ⟨by simp, ?_⟩⟩
  exact fun heq => absurd (List.append_right_eq_self.mp heq) (by simp)

section Move

variable {k : TreeMove} {b : Bytes} {master : Master} {kvs t : Tablet} {old new : Bytes}

/-- **A way to move** complete subtrees: nothing is left at the old path, and what is
at the new one is complete. -/
def MovesWhole (k : TreeMove) (b : Bytes) (master : Master)
    (move : Bytes → Bytes → Handler Unit) : Prop :=
  ∀ {old new : Bytes} {kvs t : Tablet}, IsPath old → IsPath new → Apart old new →
    Blank (kvs.row b) → kvs.row b old = some kvFolder → Tidy (kvs.row b) old →
    CompleteBelow (kvs.row b) old → Walks k (kvs.row b) old → Free (kvs.row b) new →
    (move old new).run (Call.exec master) kvs = (.ok (), t) →
      Free (t.row b) old ∧ CompleteBelow (t.row b) new

/-- A child that is still to be moved is as it was, and there is room for it. -/
def ChildReady (old new : Bytes) (R R' : Row) (l : Bytes) : Prop :=
  (∀ c, Under (old ++ 47 :: l) c → R' c = R c) ∧ Free R' (new ++ 47 :: l)

/-- A child that was moved, or was never there, is gone from the old folder, and
complete in the new one. -/
def ChildDone (old new : Bytes) (children : List Bytes) (R' : Row) (l : Bytes) : Prop :=
  Free R' (old ++ 47 :: l) ∧ CompleteBelow R' (new ++ 47 :: l) ∧
    (old ++ 47 :: l ∉ children → Free R' (new ++ 47 :: l))

section Child

variable {children : List Bytes} {R R' R'' : Row} {l : Bytes}
  (hold : ∀ c, Under (old ++ 47 :: l) c → R'' c = R' c)
  (hnew : ∀ c, Under (new ++ 47 :: l) c → R'' c = R' c)
include hold hnew

theorem ChildReady.congr (h : ChildReady old new R R' l) : ChildReady old new R R'' l :=
  ⟨fun c hu => (hold c hu).trans (h.1 c hu), h.2.congr fun c hu _ => hnew c hu⟩

theorem ChildDone.congr (h : ChildDone old new children R' l) : ChildDone old new children R'' l :=
  ⟨h.1.congr fun c hu _ => hold c hu, h.2.1.congr fun c hu _ => hnew c hu,
    fun hch => (h.2.2 hch).congr fun c hu _ => hnew c hu⟩

end Child

/-- A folder of which the entries `cs` are still to be moved. -/
structure Moving (k : TreeMove) (old new : Bytes) (R : Row) (children cs : List Bytes)
    (R' : Row) : Prop where
  /-- Nothing else has changed. -/
  moved : Moved k old new R cs R'
  /-- They are from the listing. -/
  sub : ∀ e ∈ cs, e ∈ children
  /-- The children to come can be moved. -/
  ready : ∀ l, isValidName l = true → old ++ 47 :: l ∈ cs → ChildReady old new R R' l
  /-- The others are moved. -/
  done : ∀ l, isValidName l = true → old ++ 47 :: l ∉ cs → ChildDone old new children R' l

/-- A file that is moved to a free path: nothing lives at the old path, and nothing
below the new one. -/
theorem relocateFile_whole (happart : Apart old new) (hcomplete : CompleteBelow (kvs.row b) old)
    (hfolder : kvs.row b old ≠ some kvFolder) (hfree : Free (kvs.row b) new)
    (hrun : (relocateFile b old new).run (Call.exec master) kvs = (.ok (), t)) :
    Free (t.row b) old ∧ CompleteBelow (t.row b) new := by
  constructor
  · intro p hp hu hlive
    by_cases hpo : p = old
    · rw [Live, hpo, relocateFile_old hrun] at hlive
      exact absurd hlive (by simp)
    · have hpn : p ≠ new := fun heq => happart.1 (heq ▸ hu)
      rw [Live, relocateFile_marker hrun hp.notMem_dash hpo hpn] at hlive
      exact hcomplete.not_live hfolder hp hu hpo hlive
  · intro folder n hpath hu hn hlive
    have hp := IsPath.inFolder (Or.inr hpath) hn
    have hup := hu.trans (hpath.under_inFolder n)
    have hpn : inFolder folder n ≠ new := by
      rintro rfl
      exact not_under_inFolder_self (isValidName_ne_nil hn) hu
    have hpo : inFolder folder n ≠ old := fun heq => happart.2 (heq ▸ hup)
    rw [Live, relocateFile_marker hrun hp.notMem_dash hpo hpn] at hlive
    exact absurd hlive (hfree _ hp hup)

/-- A child that is moved is gone from the old path, and complete at the new one. -/
theorem MovesWhole.moveChild {move : Bytes → Bytes → Handler Unit}
    (hmove : MovesWhole k b master move) (hold : IsPath old) (hnew : IsPath new)
    (happart : Apart old new) (hblank : Blank (kvs.row b)) (htidy : Tidy (kvs.row b) old)
    (hcomplete : CompleteBelow (kvs.row b) old) (hwalks : Walks k (kvs.row b) old)
    (hfree : Free (kvs.row b) new) {parent : Bytes} (htarget : k.target parent old = new)
    (hrun : (moveChild k b move parent old).run (Call.exec master) kvs = (.ok (), t)) :
    Free (t.row b) old ∧ CompleteBelow (t.row b) new := by
  rw [PennCloud.moveChild, run_Get_bind, htarget] at hrun
  by_cases hfolder : kvs.row b old = some kvFolder
  · rw [if_pos (Tablet.text_of_row hfolder)] at hrun
    exact hmove hold hnew happart hblank hfolder htidy hcomplete hwalks hfree hrun
  · have htext : kvs.text b old ≠ kvFolder := fun ht =>
      hfolder ((Tablet.text_eq_iff isErr_kvFolder).mp ht)
    rw [if_neg htext] at hrun
    split_ifs at hrun with hm
    · exact relocateFile_whole happart hcomplete hfolder hfree hrun
    · obtain ⟨-, rfl⟩ := Prod.mk.inj hrun
      refine ⟨hcomplete.free ?_, hfree.completeBelow⟩
      rintro (hfile | hfolder')
      · rw [Tablet.text_of_row hfile] at hm
        exact hm k.moves_file
      · exact hfolder hfolder'

/-- One entry more. -/
theorem Moving.step {move : Bytes → Bytes → Handler Unit} (hmove : MovesWhole k b master move)
    (hsafe : SafeMove b master move) (hold : IsPath old) (hnew : IsPath new)
    (happart : Apart old new) {R : Row} (hblank : Blank R)
    (hcomplete : ∀ l, CompleteBelow R (old ++ 47 :: l)) (hwalks : ∀ l, Walks k R (old ++ 47 :: l))
    {children cs : List Bytes} {e : Bytes}
    (h : Moving k old new R children (e :: cs) (kvs.row b))
    (hrun : (PennCloud.moveChild k b move new e).run (Call.exec master) kvs = (.ok (), t)) :
    Moving k old new R children cs (t.row b) := by
  have hmoved : Moved k old new R cs (t.row b) := by
    have hstep := h.moved.step hsafe hold hnew happart hblank
    rwa [hrun] at hstep
  have hblank' : Blank (kvs.row b) := hblank.of_row_eq fun c hc => h.moved.keeps c
    (fun hb => hold.not_under_blank hc hb.under) fun hb => hnew.not_under_blank hc hb.under
  have hsub : ∀ e' ∈ cs, e' ∈ children := fun e' he' => h.sub e' (List.mem_cons_of_mem e he')
  obtain rfl | ⟨l₀, hl₀, rfl⟩ := h.moved.remaining.own e List.mem_cons_self
  · -- an empty entry changes nothing that belongs to a child
    have hnil : ∀ c, ¬Under (new ++ [47]) c → t.row b c = kvs.row b c := by
      have hnil := @moveChild_nil _ b master _ _ _ move _ hblank' h.moved.remaining
      rwa [hrun] at hnil
    have hnil_old : ∀ l c, Under (old ++ 47 :: l) c → t.row b c = kvs.row b c := fun l c hu =>
      hnil c fun hu' => happart.not_under hu.below.under hu'.below.under
    have hnil_new : ∀ l, isValidName l = true → ∀ c, Under (new ++ 47 :: l) c →
        t.row b c = kvs.row b c := by
      refine fun l hl c hu => hnil c fun hu' => ?_
      rcases hu.comparable hu' with ⟨x, hx, -⟩ | hsib
      · have hlen := congrArg List.length hx
        simp only [List.length_append, List.length_cons, List.length_nil] at hlen
        exact isValidName_ne_nil hl (List.length_eq_zero_iff.mp (by omega))
      · exact not_under_sibling hl (isValidName_ne_nil hl).symm hsib
    refine ⟨hmoved, hsub, fun l hl hmem => ?_, fun l hl hmem => ?_⟩
    · exact (h.ready l hl (List.mem_cons_of_mem [] hmem)).congr (hnil_old l) (hnil_new l hl)
    · refine (h.done l hl fun hm => ?_).congr (hnil_old l) (hnil_new l hl)
      exact (List.mem_cons.mp hm).elim (by simp) hmem
  · obtain ⟨hsame, hfree⟩ := h.ready l₀ hl₀ List.mem_cons_self
    have htidy := h.moved.remaining.tidy _ List.mem_cons_self (by simp)
    obtain ⟨hgone, hwhole⟩ := hmove.moveChild (hold.append hl₀) (hnew.append hl₀)
      (happart.below (under_slash old l₀) (under_slash new l₀)) hblank' htidy
      ((hcomplete l₀).congr fun c hu _ => hsame c hu) ((hwalks l₀).congr hsame) hfree
      (k.target_child new old l₀ (isValidName_ne_nil hl₀) (notMem_of_isValidName hl₀)) hrun
    -- the other children are not touched
    have hkeeps : KeepsOutside (old ++ 47 :: l₀) (new ++ 47 :: l₀) (kvs.row b) (t.row b) := by
      have hkeeps := hsafe.moveChild (k := k) hold hnew happart hl₀ hblank' htidy
      rwa [hrun] at hkeeps
    have hother_old : ∀ l, isValidName l = true → l ≠ l₀ → ∀ c, Under (old ++ 47 :: l) c →
        t.row b c = kvs.row b c := fun l hl hne c hu =>
      hkeeps c ((Apart.children hl hl₀ hne).not_under hu) fun hu' =>
        happart.not_under hu.below.under hu'.below.under
    have hother_new : ∀ l, isValidName l = true → l ≠ l₀ → ∀ c, Under (new ++ 47 :: l) c →
        t.row b c = kvs.row b c := fun l hl hne c hu =>
      hkeeps c (fun hu' => happart.not_under hu'.below.under hu.below.under)
        ((Apart.children hl hl₀ hne).not_under hu)
    have hnotin : old ++ 47 :: l₀ ∉ cs := by
      have hnodup := h.moved.remaining.nodup
      rw [List.filter_cons, if_pos (by simp)] at hnodup
      exact fun hm => (List.nodup_cons.mp hnodup).1 (List.mem_filter.mpr ⟨hm, by simp⟩)
    refine ⟨hmoved, hsub, fun l hl hmem => ?_, fun l hl hmem => ?_⟩
    · have hne : l ≠ l₀ := by
        rintro rfl
        exact hnotin hmem
      exact (h.ready l hl (List.mem_cons_of_mem _ hmem)).congr (hother_old l hl hne)
        (hother_new l hl hne)
    · by_cases hne : l = l₀
      · rw [hne]
        exact ⟨hgone, hwhole, fun hch => absurd (h.sub _ List.mem_cons_self) hch⟩
      · refine (h.done l hl fun hm => ?_).congr (hother_old l hl hne) (hother_new l hl hne)
        rcases List.mem_cons.mp hm with heq | hm
        · exact hne (List.cons.inj (List.append_cancel_left heq)).2
        · exact hmem hm

/-- **Moving a complete subtree to a free path** leaves nothing at the old path, and a
complete subtree at the new one. -/
theorem completeBelow_moveTree (fuel : ℕ) : MovesWhole k b master (moveTree k b fuel) := by
  induction fuel with
  | zero =>
    intro old new kvs t _ _ _ _ _ _ _ _ _ h
    exact absurd (Prod.mk.inj h).1 (by simp)
  | succ fuel ih =>
    intro old new kvs t hold hnew happart hblank hfolder htidy hcomplete hwalks hfree h
    obtain ⟨text, htext, hown, -⟩ := (htidy old hold (Under.refl old)).1 hfolder
    obtain ⟨s, hs, hrun⟩ := @run_moveTree k b master fuel old new text kvs
      (Tablet.text_of_row htext)
    have hloop := hrun.symm.trans h
    have hstart : Moving k old new (s.row b) (k.children old text) (k.children old text)
        (s.row b) := by
      rw [hs]
      refine ⟨moved_opened hold happart hfolder htidy htext _, fun _ he => he, fun l _ _ => ?_,
        fun l hl hmem => ?_⟩
      · exact ⟨fun _ _ => rfl, (hfree.below (under_slash new l)).congr
          fun c hu _ => opened_below_new happart hu⟩
      · have hfree_new : Free (opened (kvs.row b) old new (k.listing old new text))
            (new ++ 47 :: l) := (hfree.below (under_slash new l)).congr
          fun c hu _ => opened_below_new happart hu
        refine ⟨?_, hfree_new.completeBelow, fun _ => hfree_new⟩
        -- a child that is not gone through is not on the listing, so it is not alive
        refine Free.congr (hcomplete.free_child hold hl fun v hv e he hne hlast => hmem ?_)
          fun c hu _ => opened_old happart hu
        obtain rfl : v = text := Option.some.inj (hv.symm.trans htext)
        obtain rfl | ⟨l', hl', rfl⟩ := hown e he
        · exact absurd rfl hne
        · rw [afterLast_append old (notMem_of_isValidName hl')] at hlast
          exact hwalks old hold (Under.refl old) hfolder v htext l hl (hlast ▸ he)
    have hblank' : Blank (s.row b) := hs ▸ hblank.opened hold hnew _
    have hcomplete' : ∀ l, CompleteBelow (s.row b) (old ++ 47 :: l) := by
      intro l
      rw [hs]
      exact (hcomplete.below (under_slash old l)).congr fun c hu _ => opened_old happart hu
    have hwalks' : ∀ l, Walks k (s.row b) (old ++ 47 :: l) := by
      intro l
      rw [hs]
      exact (hwalks.below (under_slash old l)).congr fun c hu => opened_old happart hu
    have hend := Prog.each_inv_ok (Call.exec master)
      (I := fun cs u => Moving k old new (s.row b) (k.children old text) cs (u.row b))
      (fun e cs u u' hu hstep => hu.step ih (safeMove_moveTree fuel) hold hnew happart hblank'
        hcomplete' hwalks' hstep) hloop hstart
    constructor
    · refine free_of_children ?_ fun l hl => (hend.done l hl List.not_mem_nil).1
      rw [Live, hend.moved.keeps old (ColumnOf.refl old).not_below fun hb => happart.2 hb.under, hs,
        opened_self]
      decide
    · intro folder n hpath hu hn hlive
      by_cases heq : folder = new
      · subst heq
        rw [hpath.inFolder_eq] at hlive
        have hchild : old ++ 47 :: n ∈ k.children old text := by
          by_contra hno
          exact (hend.done n hn List.not_mem_nil).2.2 hno _ (hpath.append hn) (Under.refl _) hlive
        constructor
        · refine Or.inr ?_
          rw [hend.moved.keeps _ (fun hb => happart.1 hb.under) (ColumnOf.refl _).not_below, hs,
            opened_new happart]
        · have hlast : afterLast 47 (old ++ 47 :: n) = n :=
            afterLast_append old (notMem_of_isValidName hn)
          obtain ⟨e, he, hne, hlast'⟩ := k.listing_local old folder text _ hpath.notMem_comma hchild
            (by rw [hlast]; exact isValidName_ne_nil hn)
          refine ⟨_, ?_, e, he, hne, hlast'.trans hlast⟩
          rw [hpath.metaCol_eq, hend.moved.keeps _ (fun hb => happart.not_under hb.under
            (under_metadata folder)) (columnOf_metadata folder).not_below, hs,
            opened_listing happart]
      · obtain ⟨l, hl, hul⟩ := exists_child hpath hu heq
        exact (hend.done l hl List.not_mem_nil).2.1 folder n hpath hul hn hlive

end Move

end PennCloud
