import PennCloud.Frontend.Storage.OwnLists

/-!
# The end of moving a folder

Every round of `renameFolderMoveRec` makes a folder, so it is not the number of folders
that gets smaller. When every list has entries of its own, the folders that are met are
below the one that is moved; and a new folder among these is nearer to it than the old
one, so that the sum of their distances gets smaller
(`PennCloud.potential_relocated_lt`). A list with an entry elsewhere may lead to the new
folder itself, and so on without an end (`PennCloud.run_moveTree_chase`).
-/

namespace PennCloud

open Wire Calls Text

variable {master : Master} {kvs : Tablet} {b : Bytes} {source new : Bytes}

/-! ### What gets smaller -/

/-- The folders below a path. -/
def foldersBelow (kvs : Tablet) (b a : Bytes) : Set Bytes :=
  {c | kvs.row b c = some kvFolder ∧ IsPath c ∧ Under a c}

theorem finite_foldersBelow (kvs : Tablet) (b a : Bytes) : (foldersBelow kvs b a).Finite :=
  (finite_folderColumns kvs b).subset fun _ hc => hc.1

/-- The sum of their distances. -/
noncomputable def potential (kvs : Tablet) (b a : Bytes) : ℕ :=
  weight (fun c => c.length + 1 - a.length) (foldersBelow kvs b a)

theorem Under.length_le {a c : Bytes} (h : Under a c) : a.length ≤ c.length := by
  obtain ⟨t, rfl, -⟩ := h
  rw [List.length_append]
  exact Nat.le_add_right _ _

theorem potential_pos {c : Bytes} (h : c ∈ foldersBelow kvs b source) :
    0 < potential kvs b source := by
  have hle := le_weight (w := fun c => c.length + 1 - source.length)
    (finite_foldersBelow kvs b source) h
  have hlen := h.2.2.length_le
  rw [potential]
  omega

/-- Without new folders it does not get larger. -/
theorem potential_le {s : Tablet}
    (h : Holds (Proper {c | kvs.row b c = some kvFolder}) (s.row b)) (a : Bytes) :
    potential s b a ≤ potential kvs b a := by
  refine weight_mono (finite_foldersBelow kvs b a) ?_
  rintro c ⟨hc, hpath, hu⟩
  refine ⟨?_, hpath, hu⟩
  exact (((h c _ hc).folder rfl).resolve_left fun hcontent => hpath.notMem_dash hcontent.mem).2

/-- The store once the columns of a folder itself are moved by `renameFolderMoveRec`. -/
def relocated (kvs : Tablet) (b old new : Bytes) : Tablet :=
  openTablet kvs b old new
    (TreeMove.relocate.listing old new (kvs.text b (old ++ ascii "-metadata")))

theorem holds_relocated {old : Bytes} (hkvs : Holds (Proper Set.univ) (kvs.row b))
    (hold : IsPath old) (hnew : IsPath new) :
    Holds (Proper Set.univ) ((relocated kvs b old new).row b) := by
  have hlist := Proper.ownList_of_read (hkvs.text (old ++ ascii "-metadata")) hold
  have hput := ((hkvs.put (.folderMarker hnew (Set.mem_univ new))).put
    (.metadata hnew (hlist.relocated hold hnew))).put
      (.marker hold.numbered (v := delKvFolder) (by decide))
  exact hput.delete _

theorem holds_proper_self (h : Holds (Proper Set.univ) (kvs.row b)) :
    Holds (Proper {c | kvs.row b c = some kvFolder}) (kvs.row b) := by
  intro c v hv
  refine ⟨?_, (h c v hv).list⟩
  rintro rfl
  exact ((h c _ hv).folder rfl).imp_right fun hand => ⟨hand.1, hv⟩

/-- **A round makes it smaller**: the old folder goes, and if the new one is below the source
too, it is above the old one. -/
theorem potential_relocated_lt {t : Bytes} (hguard : Under source new → new = source)
    (ht : ∀ x ∈ t.head?, x = 47) (hold : IsPath (source ++ t))
    (hfolder : kvs.row b (source ++ t) = some kvFolder) :
    potential (relocated kvs b (source ++ t) (new ++ t)) b source < potential kvs b source := by
  have hu : Under source (source ++ t) := ⟨t, rfl, fun x hx => Or.inl (ht x hx)⟩
  have hmem : source ++ t ∈ foldersBelow kvs b source := ⟨hfolder, hold, hu⟩
  have hlen := hu.length_le
  -- the only folder that may be new is the one at the new path
  have hsub : foldersBelow (relocated kvs b (source ++ t) (new ++ t)) b source ⊆
      insert (new ++ t) (foldersBelow kvs b source \ {source ++ t}) := by
    rintro c ⟨hc, hpath, huc⟩
    rw [relocated, row_openTablet] at hc
    by_cases hcold : c = source ++ t
    · rw [hcold, opened_self] at hc
      exact absurd hc (by decide)
    · by_cases hcnew : c = new ++ t
      · exact Set.mem_insert_iff.mpr (Or.inl hcnew)
      · rw [opened_of_ne hcnew (hpath.numbered.ne_list _) hcold (hpath.numbered.ne_list _)] at hc
        exact Set.mem_insert_iff.mpr (Or.inr ⟨⟨hc, hpath, huc⟩, hcold⟩)
  by_cases hbelow : Under source (new ++ t) ∧ new ≠ source
  · -- it is nearer to the source
    have hshort : new.length < source.length := by
      have hunew : Under new (new ++ t) := ⟨t, rfl, fun x hx => Or.inl (ht x hx)⟩
      rcases hbelow.1.comparable hunew with hsn | hns
      · exact absurd (hguard hsn) hbelow.2
      · obtain ⟨u, rfl, -⟩ := hns
        rcases u with _ | ⟨y, u⟩
        · exact absurd (List.append_nil new).symm hbelow.2
        · simp
    refine weight_lt_of_lighter (finite_foldersBelow kvs b source) hmem ?_ hsub
    have hlen' := hbelow.1.length_le
    rw [List.length_append] at hlen hlen' ⊢
    rw [List.length_append]
    omega
  · refine weight_lt (finite_foldersBelow kvs b source) hmem (by omega) fun c hc => ?_
    rcases Set.mem_insert_iff.mp (hsub hc) with rfl | hc'
    · have heq : new = source := by
        by_contra hne
        exact hbelow ⟨hc.2.2, hne⟩
      subst heq
      obtain ⟨hrow, -, -⟩ := hc
      rw [relocated, row_openTablet, opened_self] at hrow
      exact absurd hrow (by decide)
    · exact hc'

/-! ### The recursion -/

theorem never_relocateFile (old new : Bytes) : (relocateFile b old new).Never Abort.running := by
  have hchunks : ∀ chunks, (moveChunks b old new chunks).Never Abort.running := by
    intro chunks
    induction chunks with
    | nil => exact trivial
    | cons chunk chunks ih =>
      rw [moveChunks]
      refine .ite (by simp [Prog.Never]) (.ask_bind fun _ => .ask_bind fun _ => .ask_bind fun _ =>
        ?_)
      exact ih.bind fun _ => trivial
  have hcontent : (moveContent b old new).Never Abort.running := by
    refine .ask_bind fun _ => .ite ?_ (.ask_bind fun _ => .ask_bind fun _ => .ask_bind fun _ =>
      trivial)
    exact (hchunks _).bind fun _ => .ask_bind fun _ => .ask_bind fun _ => trivial
  exact hcontent.bind fun _ => .ask_bind fun _ => .ask_bind fun _ => trivial

/-- What a part of the recursion leaves: lists with entries of their own, and distances that
are not more than `n`. -/
structure InBounds (b source : Bytes) (n : ℕ) (s : Tablet) : Prop where
  /-- The lists. -/
  proper : Holds (Proper Set.univ) (s.row b)
  /-- The distances. -/
  potential_le : potential s b source ≤ n

/-- A part of the recursion does not run out of rounds. -/
def StaysInBounds (master : Master) (b source : Bytes) (n : ℕ) (p : Handler Unit) (kvs : Tablet) :
    Prop :=
  p.Avoids (Call.exec master) .running kvs ∧
    InBounds b source n (p.run (Call.exec master) kvs).2

/-- **With `n` rounds every folder below the source is moved to the end**, when the distances
are not more. -/
def EndsBelow (master : Master) (b source new : Bytes) (n : ℕ) : Prop :=
  ∀ (t : Bytes) (kvs : Tablet), (∀ x ∈ t.head?, x = 47) → IsPath (source ++ t) →
    IsPath (new ++ t) → kvs.row b (source ++ t) = some kvFolder → InBounds b source n kvs →
    StaysInBounds master b source n (moveTree .relocate b n (source ++ t) (new ++ t)) kvs

/-- A file keeps the folders. -/
theorem inBounds_relocateFile {n : ℕ} {old e : Bytes} (hown : OwnEntry old e) (hold : IsPath old)
    {target : Bytes} (htarget : IsPath target) (hkvs : InBounds b source n kvs) :
    StaysInBounds master b source n (relocateFile b e (movedChild target e)) kvs := by
  refine ⟨(never_relocateFile e _).avoids kvs,
    (hown.proper_relocateFile hold htarget).run hkvs.proper, ?_⟩
  exact (potential_le ((hown.proper_relocateFile hold htarget).run
    (holds_proper_self hkvs.proper)) source).trans hkvs.potential_le

/-- An entry of a folder below the source. -/
theorem EndsBelow.inBounds_moveChild {n : ℕ} (h : EndsBelow master b source new n) {t e : Bytes}
    (ht : ∀ x ∈ t.head?, x = 47) (hold : IsPath (source ++ t)) (hnew : IsPath (new ++ t))
    (hown : OwnEntry (source ++ t) e) (hkvs : InBounds b source n kvs) :
    StaysInBounds master b source n
      (moveChild .relocate b (moveTree .relocate b n) (new ++ t) e) kvs := by
  rw [StaysInBounds, Prog.Avoids, moveChild, run_Get_bind]
  split_ifs with hfolder hfile
  · -- a folder goes on from both paths with the same name
    have hpath := (Proper.path_of_read (hkvs.proper.text e) hfolder
      (hown.numbered hold).not_isContent).1
    obtain ⟨l, hl, rfl, heq⟩ := hown.exists_moved hpath (new ++ t)
    have hmoved := hnew.append hl
    rw [List.append_assoc] at hpath hmoved hfolder
    rw [show TreeMove.relocate.target (new ++ t) (source ++ t ++ 47 :: l) =
      new ++ t ++ 47 :: l from heq, List.append_assoc, List.append_assoc]
    have hmarker := (Tablet.text_eq_iff isErr_kvFolder).mp hfolder
    refine h (t ++ 47 :: l) kvs ?_ hpath hmoved hmarker hkvs
    rcases t with _ | ⟨x, t⟩
    · exact fun x hx => (Option.some.inj hx).symm
    · exact ht
  · exact inBounds_relocateFile hown hold hnew hkvs
  · exact ⟨fun herr => absurd herr (by simp), hkvs⟩

/-- **A round**: the folder itself, and its entries. -/
theorem EndsBelow.inBounds_moveTree {n : ℕ} (h : EndsBelow master b source new n) {t : Bytes}
    (ht : ∀ x ∈ t.head?, x = 47) (hold : IsPath (source ++ t)) (hnew : IsPath (new ++ t))
    (hkvs : Holds (Proper Set.univ) (kvs.row b))
    (hpotential : potential (relocated kvs b (source ++ t) (new ++ t)) b source ≤ n) :
    StaysInBounds master b source n (moveTree .relocate b (n + 1) (source ++ t) (new ++ t))
      kvs := by
  rw [StaysInBounds, Prog.Avoids, run_moveTree_open]
  have hlist := Proper.ownList_of_read (hkvs.text (source ++ t ++ ascii "-metadata")) hold
  refine Prog.avoids_each (I := InBounds b source n) (fun e he s hs => ?_)
    ⟨holds_relocated hkvs hold hnew, hpotential⟩
  exact h.inBounds_moveChild ht hold hnew (hlist.of_mem_movedChildren he).1 hs

/-- **The distances are rounds enough.** -/
theorem endsBelow (hguard : Under source new → new = source) (n : ℕ) :
    EndsBelow master b source new n := by
  induction n with
  | zero =>
    intro t kvs ht hold hnew hfolder hkvs
    have hpos := potential_pos
      ⟨hfolder, hold, (⟨t, rfl, fun x hx => Or.inl (ht x hx)⟩ : Under source (source ++ t))⟩
    exact absurd hkvs.potential_le (Nat.not_le.mpr hpos)
  | succ n ih =>
    intro t kvs ht hold hnew hfolder hkvs
    obtain ⟨havoid, hbounds⟩ := ih.inBounds_moveTree ht hold hnew hkvs.proper
      (Nat.le_of_lt_succ ((potential_relocated_lt hguard ht hold hfolder).trans_le
        hkvs.potential_le))
    exact ⟨havoid, hbounds.proper, hbounds.potential_le.trans (Nat.le_succ n)⟩

/-! ### Runs -/

/-- **A folder move comes to its end** in every row that is reached without the two requests
that take entries elsewhere: with rounds enough it is not stopped. -/
theorem folderMove_ends {kvs₀ : Tablet} {target : Bytes} (h0 : ∀ c, kvs₀.row b c = none)
    (h : Runs.Reaches (StorageRequest.step master b)
      (fun s e => e.2.Valid ∧ e.2.Contained (s.row b)) kvs₀ kvs)
    (hsource : IsPath source) (htarget : IsFolderPath target)
    (hmay : MayMove master kvs b source target) :
    ∃ n, ∀ fuel, n ≤ fuel →
      (renameFolderMoveRec b fuel source (inFolder target (afterLast 47 source))).Avoids
        (Call.exec master) .running kvs := by
  obtain ⟨folder, m, -, hm, heq⟩ := hsource.exists_inFolder
  have hlast : afterLast 47 source = m := heq ▸ afterLast_inFolder hm
  have hnew : IsPath (inFolder target (afterLast 47 source)) := hlast ▸ IsPath.inFolder htarget hm
  have hguard : Under source (inFolder target (afterLast 47 source)) →
      inFolder target (afterLast 47 source) = source := by
    intro hu
    rw [hlast] at hu ⊢
    refine (under_inFolder htarget hm hu).resolve_right ?_
    rintro ⟨hpath, hunder⟩
    exact hmay.not_under hpath hunder
  -- as many as the distances once the folder itself was moved, and one
  refine ⟨potential (relocated kvs b source (inFolder target (afterLast 47 source))) b source + 1,
    fun fuel hle => ?_⟩
  obtain ⟨n, rfl⟩ := Nat.exists_eq_succ_of_ne_zero (Nat.ne_zero_of_lt hle)
  have hround := @EndsBelow.inBounds_moveTree _ kvs _ _ _ _ (@endsBelow master b _ _ hguard n) []
    (fun x hx => absurd hx (by simp))
  simp only [List.append_nil] at hround
  rw [renameFolderMoveRec_eq]
  exact (hround hsource hnew (ownLists_of_reaches h0 h) (Nat.le_of_succ_le_succ hle)).1

/-- Ann has made the folders `a` and `b`. -/
def foldersAB : Tablet :=
  [(0, .createFolder [] (ascii "a")), (0, .createFolder [] (ascii "b"))].foldl
    (StorageRequest.step Master.first annsRow) ∅

example : foldersAB.row annsRow (ascii "b") = some kvFolder := by decide +kernel

/-- One is moved into the other. -/
theorem foldersAB_move_ends : ∃ n, ∀ fuel, n ≤ fuel →
    (renameFolderMoveRec annsRow fuel (ascii "a")
      (inFolder (ascii "b") (afterLast 47 (ascii "a")))).Avoids (Call.exec Master.first) .running
        foldersAB := by
  refine folderMove_ends (fun _ => rfl) (.of_along ⟨⟨⟨Or.inl rfl, by decide⟩, trivial⟩,
    ⟨⟨Or.inl rfl, by decide⟩, trivial⟩, trivial⟩) (by decide) (Or.inr (by decide))
    ⟨?_, ?_, ?_, ?_⟩
  · rw [Reached]
    decide
  · decide
  · decide +kernel
  · decide

/-! ### A chase -/

/-- **A listing that names the new path** leads the recursion to the folder it has just made,
and from there to the next one. -/
theorem run_moveTree_chase (fuel : ℕ) {old : Bytes} (hold : IsPath old) (hnew : IsPath new)
    (hne : old ≠ new) (herr : isErr new = false)
    (hlist : kvs.row b (old ++ ascii "-metadata") = some new) :
    ((moveTree .relocate b fuel old new).run (Call.exec master) kvs).1 = .error .running := by
  induction fuel generalizing kvs old new with
  | zero => rfl
  | succ fuel ih =>
    obtain ⟨folder, n, hfolder, hn, heq⟩ := hnew.exists_inFolder
    have hlast : afterLast 47 new = n := heq ▸ afterLast_inFolder hn
    have hchild : movedChild new new = new ++ 47 :: n := by
      rw [movedChild, hlast, if_neg (isValidName_ne_nil hn)]
    have hchildren : movedChildren old new = [new] := by
      rw [movedChildren, herr, if_neg (by decide), splitStringStorage_of_notMem hnew.notMem_comma]
      simp [hnew.ne_nil, hne.symm]
    have hlisting : TreeMove.relocate.listing old new new = new ++ 47 :: n := by
      calc TreeMove.relocate.listing old new new
          = joinStorage ((movedChildren old new).map (movedChild new)) := rfl
        _ = new ++ 47 :: n := by
          rw [hchildren, List.map_singleton, hchild]
          simp [joinStorage]
    have hnext : IsPath (new ++ 47 :: n) := hnew.append hn
    have hne' : new ≠ new ++ 47 :: n := fun h => absurd (List.append_right_eq_self.mp h.symm)
      (by simp)
    -- the folder that was made is the one entry of its own listing's folder
    have hrow := row_openTablet kvs b old new (new ++ 47 :: n)
    have hfolder : (openTablet kvs b old new (new ++ 47 :: n)).text b new = kvFolder := by
      refine Tablet.text_of_row ?_
      rw [hrow, opened, Function.update_of_ne (hnew.numbered.ne_list _),
        Function.update_of_ne hne.symm, Function.update_of_ne (hnew.numbered.ne_list _),
        Function.update_self]
    have hown : (openTablet kvs b old new (new ++ 47 :: n)).row b (new ++ ascii "-metadata") =
        some (new ++ 47 :: n) := by
      rw [hrow, opened, Function.update_of_ne fun h => hne (List.append_cancel_right h).symm,
        Function.update_of_ne (hold.numbered.ne_list _).symm, Function.update_self]
    rw [run_moveTree_open, Tablet.text_of_row hlist, hlisting,
      show TreeMove.relocate.children old new = [new] from hchildren, Prog.each_cons]
    have herror := ih hnew hnext hne' ((isErr_append (by decide) (by decide) new n).trans herr) hown
    have hmoved : ((moveChild .relocate b (moveTree .relocate b fuel) new new).run
        (Call.exec master) (openTablet kvs b old new (new ++ 47 :: n))).1 = .error .running := by
      rw [moveChild, run_Get_bind, if_pos hfolder]
      exact (congrArg (fun q => ((moveTree .relocate b fuel new q).run (Call.exec master)
        (openTablet kvs b old new (new ++ 47 :: n))).1) hchild).trans herror
    rw [Prog.run_bind_of_error _ (Prod.ext hmoved rfl)]

/-- Ann has a folder `x` that was called `a` when another `x` was made in it, and a new
folder `a`. -/
def renamedAndNew : Tablet :=
  [(2, .createFolder [] (ascii "a")), (2, .createFolder (ascii "a") (ascii "x")),
    (2, .renameFolder (ascii "a") (ascii "x")), (2, .createFolder [] (ascii "a"))].foldl
    (StorageRequest.step Master.first annsRow) ∅

theorem reaches_renamedAndNew : Runs.Reaches (StorageRequest.step Master.first annsRow)
    (fun s e => e.2.Valid ∧ (e.2.handler annsRow e.1).Avoids (Call.exec Master.first) .running s)
    ∅ renamedAndNew := by
  refine .of_along ⟨⟨⟨Or.inl rfl, by decide⟩, ?_⟩, ⟨⟨Or.inr (by decide), by decide⟩, ?_⟩,
    ⟨⟨by decide, by decide⟩, ?_⟩, ⟨⟨Or.inl rfl, by decide⟩, ?_⟩, trivial⟩
  · rw [Prog.Avoids]
    decide +kernel
  · rw [Prog.Avoids]
    decide +kernel
  · rw [Prog.Avoids]
    decide +kernel
  · rw [Prog.Avoids]
    decide +kernel

/-- **Moving `x` into the new `a` does not come to an end**, however many rounds. -/
theorem folderMove_does_not_end :
    Runs.Reaches (StorageRequest.step Master.first annsRow)
      (fun s e => e.2.Valid ∧
        (e.2.handler annsRow e.1).Avoids (Call.exec Master.first) .running s) ∅ renamedAndNew ∧
    renamedAndNew.row annsRow (ascii "x") = some kvFolder ∧
    renamedAndNew.row annsRow (ascii "a") = some kvFolder ∧
    MayMove Master.first renamedAndNew annsRow (ascii "x") (ascii "a") ∧
    ∀ fuel, ¬(renameFolderMoveRec annsRow fuel (ascii "x")
      (inFolder (ascii "a") (afterLast 47 (ascii "x")))).Avoids (Call.exec Master.first) .running
        renamedAndNew := by
  refine ⟨reaches_renamedAndNew, by decide +kernel, by decide +kernel, ⟨?_, ?_, ?_, ?_⟩,
    fun fuel havoids => havoids ?_⟩
  · rw [Reached]
    decide
  · decide
  · decide +kernel
  · decide
  · rw [renameFolderMoveRec_eq]
    exact run_moveTree_chase fuel (by decide) (by decide) (by decide) (by decide)
      (by decide +kernel)

end PennCloud
