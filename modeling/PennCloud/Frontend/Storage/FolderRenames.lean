import PennCloud.Frontend.Storage.FolderMoves
import PennCloud.Frontend.Storage.Values

/-!
# Renaming a folder

`renameFolderRec` moves what is in a folder, but the listing it gives the folder is the
old one, with the old paths on it (`PennCloud.listing_webStorageRenameFolder`). So no
folder that has something in it lists its children after it was renamed
(`PennCloud.not_renamesWhole`).
-/

namespace PennCloud

open Wire Calls Text

variable {master : Master} {kvs : Tablet} {b : Bytes}

/-- The folders list their children and the files their chunks. -/
structure Orderly (R : Row) : Prop where
  /-- The folders. -/
  folders : ∀ q, IsPath q → R q = some kvFolder → ListsChildren R q
  /-- The files. -/
  files : ∀ q, IsPath q → R q = some kvFile → ∃ n, Chunks R q n

/-- **A folder that was renamed**, with its subtree. -/
structure FolderRenamed (R R' : Row) (old new : Bytes) : Prop where
  /-- What is below it is below the new path, of the same kind and with the same bytes. -/
  items : ∀ t, (∀ x ∈ t.head?, x = 47) → IsPath (old ++ t) → Live R (old ++ t) →
    R' (new ++ t) = R (old ++ t) ∧
      (R (old ++ t) = some kvFile → bytesOf R' (new ++ t) = bytesOf R (old ++ t))
  /-- There is nothing below the old one. -/
  gone : Free R' old
  /-- The folders list their children again. -/
  orderly : Orderly R'

/-- The request renames the folder with its subtree. -/
def RenamesWhole (master : Master) (kvs : Tablet) (b path newName : Bytes) : Prop :=
  ∃ fuel, ∃ s : Tablet,
    (webStorageRenameFolder b fuel path newName).run (Call.exec master) kvs =
      (.ok (.ok (.folderRenamed (afterLast 47 path) newName
        (inFolder (beforeLast 47 path) newName))), s) ∧
    FolderRenamed (kvs.row b) (s.row b) path (inFolder (beforeLast 47 path) newName)

/-! ### The listing of the renamed folder -/

/-- What the recursion may put where the listing of `new` is. -/
def Copied (new text column value : Bytes) : Prop :=
  column = new ++ ascii "-metadata" → value = text ∨ value = delKvFolder

namespace Copied

variable {new text : Bytes}

theorem content {c v : Bytes} (h : IsContent c) : Copied new text c v := by
  rintro rfl
  exact absurd h (not_isContent_metadata new)

/-- What is behind a `/` is not the listing. -/
theorem below {c t v : Bytes} (h : Below new c) : Copied new text (c ++ t) v := by
  obtain ⟨u, rfl⟩ := h
  intro heq
  rw [List.append_assoc] at heq
  exact absurd (List.cons.inj (List.append_cancel_left heq)).1 (by decide)

theorem keeps_moveChunks (old new' : Bytes) (chunks : List Bytes) :
    Keeps b (Copied new text) (moveChunks b old new' chunks) := by
  induction chunks with
  | nil => exact trivial
  | cons chunk chunks ih =>
    rw [moveChunks]
    refine .ite (fun _ => trivial) fun _ => .get fun _ _ => .put (content (isContent_append _))
      fun _ => .delete fun _ => ih.bind fun _ => trivial

theorem keeps_relocateFile (old : Bytes) {new' : Bytes} (h : Below new new') :
    Keeps b (Copied new text) (relocateFile b old new') := by
  have hmarker : Copied new text new' kvFile := by
    have hself := @below new text new' [] kvFile h
    rwa [List.append_nil] at hself
  have hcontent : Keeps b (Copied new text) (moveContent b old new') := by
    refine .get fun _ _ => .ite (fun _ => ?_) fun _ => ?_
    · exact (keeps_moveChunks old new' _).bind fun _ =>
        .put (below h) fun _ => .delete fun _ => trivial
    · exact .get fun _ _ => .put (content (isContent_append _)) fun _ => .delete fun _ => trivial
  exact hcontent.bind fun _ => .put hmarker fun _ => .delete fun _ => trivial

/-- Below the new path the recursion leaves the listing alone. -/
theorem keeps_moveTree (fuel : ℕ) (old : Bytes) {new' : Bytes} (h : Below new new') :
    Keeps b (Copied new text) (moveTree .rename b fuel old new') := by
  induction fuel generalizing old new' with
  | zero => exact trivial
  | succ fuel ih =>
    have hmarker : Copied new text new' kvFolder := by
      have hself := @below new text new' [] kvFolder h
      rwa [List.append_nil] at hself
    refine .get fun _ _ => .put hmarker fun _ => .put (below h) fun _ =>
      .put (fun _ => Or.inr rfl) fun _ => .delete fun _ => .each fun e _ => ?_
    have hchild : Below new (new' ++ 47 :: afterLast 47 e) := by
      obtain ⟨u, rfl⟩ := h
      exact ⟨u ++ 47 :: afterLast 47 e, by simp⟩
    exact .get fun _ _ => .ite (fun _ => ih e hchild) fun _ =>
      .ite (fun _ => keeps_relocateFile e hchild) fun _ => trivial

end Copied

/-- The row after the first round. -/
theorem holds_copied (kvs : Tablet) (new old text : Bytes) :
    Holds (Copied new text) ((openTablet kvs b old new text).row b) := by
  rintro c w hw rfl
  rw [openTablet, Tablet.row_delete, Tablet.row_put, Tablet.row_put, Function.update_apply,
    Function.update_apply, Function.update_self] at hw
  split_ifs at hw
  · exact Or.inr (Option.some.inj hw).symm
  · exact Or.inl (Option.some.inj hw).symm

/-- **The listing of a folder that was renamed** is the one it had under the old path, unless
there is none. -/
theorem listing_webStorageRenameFolder {fuel : ℕ} {path newName v w : Bytes} {page : Page}
    {s : Tablet} (hpath : IsPath path) (hv : kvs.row b (path ++ ascii "-metadata") = some v)
    (h : (webStorageRenameFolder b fuel path newName).run (Call.exec master) kvs =
      (.ok (.ok page), s))
    (hw : s.row b (inFolder (beforeLast 47 path) newName ++ ascii "-metadata") = some w) :
    w = v ∨ w = delKvFolder := by
  obtain ⟨parent, m, -, hm, rfl⟩ := hpath.exists_inFolder
  rw [beforeLast_inFolder hm] at hw
  rcases run_renameFolder h with ⟨-, href⟩ | ⟨-, hmove⟩
  · exact absurd rfl (href page)
  · rw [beforeLast_inFolder hm] at hmove
    rcases fuel with _ | fuel
    · exact absurd (Prod.mk.inj hmove).1 (by simp)
    · -- the first round copies the listing, and the others are below the new path
      have hne : metaCol parent ≠ inFolder parent m ++ ascii "-metadata" :=
        metaCol_ne_metadata (inFolder_ne_folder (isValidName_ne_nil hm)).symm
      have htext : (kvs.put b (metaCol parent) (joinStorage (replaceEntry (inFolder parent m)
          (inFolder parent newName) (splitStringStorage (kvs.text b (metaCol parent)))))).text b
            (inFolder parent m ++ ascii "-metadata") = v := by
        refine Tablet.text_of_row ?_
        rw [Tablet.row_put, Function.update_of_ne hne.symm, hv]
      rw [run_moveTree_open, htext] at hmove
      have hkeep : Keeps b (Copied (inFolder parent newName) v)
          (Prog.each (moveChild .rename b (moveTree .rename b fuel) (inFolder parent newName))
            (splitStringStorage v)) := by
        refine .each fun e _ => .get fun _ _ => ?_
        have hbelow : Below (inFolder parent newName)
            (inFolder parent newName ++ 47 :: afterLast 47 e) := ⟨_, rfl⟩
        exact .ite (fun _ => Copied.keeps_moveTree fuel e hbelow) fun _ =>
          .ite (fun _ => Copied.keeps_relocateFile e hbelow) fun _ => trivial
      exact hkeep.of_run (holds_copied _ _ _ _) hmove _ w hw rfl

/-- A listing of the old paths is none of the new ones. -/
theorem not_folderRenamed {R R' : Row} {old new v : Bytes} (hold : IsPath old) (hnew : IsPath new)
    (hne : new ≠ old) (hlists : ListsChildren R old) (hchild : (childrenOf R old).Nonempty)
    (hv : R (old ++ ascii "-metadata") = some v)
    (hlisting : ∀ w, R' (new ++ ascii "-metadata") = some w → w = v ∨ w = delKvFolder) :
    ¬FolderRenamed R R' old new := by
  intro h
  obtain ⟨x, hfolder, n, hn, rfl, hlive⟩ := hchild
  -- the folder and the child are at their new paths
  have hself : R' new = some kvFolder := by
    have hitem := h.items [] (by simp)
    rw [List.append_nil, List.append_nil, hfolder] at hitem
    exact (hitem hold (Or.inr hfolder)).1
  have hmoved := (h.items (47 :: n) (by simp) (hold.append hn) hlive).1
  have hlive' : Live R' (inFolder new n) := by
    rw [hnew.inFolder_eq]
    exact hlive.imp (hmoved.trans ·) (hmoved.trans ·)
  -- so the child is on the listing
  have hmem := ((h.orderly.folders new hnew hself).mem_iff _).mpr ⟨n, hn, rfl, hlive'⟩
  obtain ⟨hnil, w, hw, hmem⟩ := mem_entriesOf.mp hmem
  have hpath := IsPath.inFolder (Or.inr hnew) hn
  rw [hnew.metaCol_eq] at hw
  rcases hlisting w hw with rfl | rfl
  · rw [← hold.metaCol_eq] at hv
    obtain ⟨k, hk, heq, -⟩ := (hlists.mem_iff _).mp (mem_entriesOf.mpr ⟨hnil, w, hv, hmem⟩)
    have hbefore := congrArg (beforeLast 47) heq
    rw [beforeLast_inFolder hn, beforeLast_inFolder hk] at hbefore
    exact hne hbefore
  · rw [splitStringStorage_of_notMem (by decide), List.mem_singleton] at hmem
    exact hpath.notMem_dash (hmem ▸ (by decide))

/-- **No folder with something in it is renamed with its subtree.** -/
theorem not_renamesWhole {path newName : Bytes} (h : Orderly (kvs.row b)) (hpath : IsPath path)
    (hfolder : kvs.row b path = some kvFolder) (hchild : (childrenOf (kvs.row b) path).Nonempty)
    (hname : isValidName newName = true)
    (hfree : ¬Live (kvs.row b) (inFolder (beforeLast 47 path) newName)) :
    ¬RenamesWhole master kvs b path newName := by
  rintro ⟨fuel, s, hrun, hrenamed⟩
  have hlists := h.folders path hpath hfolder
  have hnew : IsPath (inFolder (beforeLast 47 path) newName) := by
    obtain ⟨parent, m, hparent, hm, rfl⟩ := hpath.exists_inFolder
    rw [beforeLast_inFolder hm]
    exact IsPath.inFolder hparent hname
  have hne : inFolder (beforeLast 47 path) newName ≠ path := fun heq =>
    hfree (by rw [heq]; exact Or.inr hfolder)
  obtain ⟨x, hx⟩ := hchild
  obtain ⟨-, n, hn, rfl, hlive⟩ := hx
  obtain ⟨-, v, hv, -⟩ := mem_entriesOf.mp
    ((hlists.mem_iff _).mpr ⟨n, hn, rfl, hpath.inFolder_eq n ▸ hlive⟩)
  rw [hpath.metaCol_eq] at hv
  exact not_folderRenamed hpath hnew hne hlists ⟨_, hfolder, n, hn, rfl, hlive⟩ hv
    (fun w => listing_webStorageRenameFolder hpath hv hrun) hrenamed

theorem orderly_noteInFolder : Orderly (noteInFolder.row annsRow) :=
  ⟨fun _ _ hq => listsChildren_noteInFolder (Or.inr hq),
    fun _ _ hq => ⟨1, chunks_noteInFolder hq⟩⟩

/-- The folder with a file in it. -/
theorem noteInFolder_not_renamed :
    ¬RenamesWhole Master.first noteInFolder annsRow (ascii "a") (ascii "b") := by
  refine not_renamesWhole orderly_noteInFolder (by decide) (by decide +kernel)
    ⟨ascii "a/x", by decide +kernel, ascii "x", by decide, by decide,
      live_noteInFolder.mpr (Or.inr rfl)⟩ (by decide) fun hlive => ?_
  exact absurd (live_noteInFolder.mp hlive) (by decide)

/-- The store when `a` was renamed to `b`. -/
def noteInRenamed : Tablet :=
  ((webStorageRenameFolder annsRow 2 (ascii "a") (ascii "b")).run (Call.exec Master.first)
    noteInFolder).2

/-- **A folder that was renamed names the old path of the file in it**, which is at the new
one. -/
theorem rename_keeps_old_listing : Orderly (noteInFolder.row annsRow) ∧
    noteInFolder.row annsRow (ascii "a") = some kvFolder ∧
    noteInFolder.row annsRow (ascii "a/x") = some kvFile ∧
    noteInFolder.row annsRow (ascii "b") = none ∧
    (webStorageRenameFolder annsRow 2 (ascii "a") (ascii "b")).run (Call.exec Master.first)
      noteInFolder = (.ok (.ok (.folderRenamed (ascii "a") (ascii "b") (ascii "b"))),
        noteInRenamed) ∧
    noteInRenamed.row annsRow (ascii "b") = some kvFolder ∧
    noteInRenamed.row annsRow (ascii "b-metadata") = some (ascii "a/x") ∧
    noteInRenamed.row annsRow (ascii "b/x") = some kvFile ∧
    ¬FolderRenamed (noteInFolder.row annsRow) (noteInRenamed.row annsRow) (ascii "a")
      (ascii "b") := by
  have hok : ((webStorageRenameFolder annsRow 2 (ascii "a") (ascii "b")).run
      (Call.exec Master.first) noteInFolder).1 =
        .ok (.ok (.folderRenamed (ascii "a") (ascii "b") (ascii "b"))) := by decide +kernel
  have hfolder : noteInRenamed.row annsRow (ascii "b") = some kvFolder := by decide +kernel
  have hlisting : noteInRenamed.row annsRow (ascii "b-metadata") = some (ascii "a/x") := by
    decide +kernel
  refine ⟨orderly_noteInFolder, by decide +kernel, by decide +kernel, by decide +kernel,
    Prod.ext hok rfl, hfolder, hlisting, by decide +kernel, fun h => ?_⟩
  have hentries : entriesOf (noteInRenamed.row annsRow) (ascii "b") = [ascii "a/x"] := by
    decide +kernel
  have hmem : ascii "a/x" ∈ entriesOf (noteInRenamed.row annsRow) (ascii "b") := by
    rw [hentries]
    exact List.mem_singleton_self _
  obtain ⟨n, hn, heq, -⟩ := ((h.orderly.folders _ (by decide) hfolder).mem_iff _).mp hmem
  have hbefore := congrArg (beforeLast 47) heq
  rw [beforeLast_inFolder hn] at hbefore
  exact absurd hbefore (by decide)

end PennCloud
