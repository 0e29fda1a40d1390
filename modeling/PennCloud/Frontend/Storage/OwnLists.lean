import PennCloud.Frontend.Storage.FolderMoves
import PennCloud.Frontend.Storage.Values

/-!
# What is on the lists of a row

The list of an item names what belongs to the item: children, chunks, nothing else
(`PennCloud.OwnList`) – an entry that is empty, or the text of an error that was read
once in its place, apart. All requests keep to this but two: the listing of a folder
that is renamed is copied, and a number that an upload puts into its path may end up in
the folder. Without these, every list in a row has entries of its own
(`PennCloud.ownLists_of_reaches`).
-/

namespace PennCloud

open Wire Calls Text

variable {master : Master} {kvs : Tablet} {b : Bytes}

/-! ### Entries -/

/-- With a dash in it there is a digit at the end, as in the name of a chunk. -/
def Numbered (e : Bytes) : Prop := 45 ∈ e → ∃ d ∈ e.getLast?, IsDigit d

/-- The last part of a path, or of the name of a chunk. -/
def LeafName (n : Bytes) : Prop := n ≠ [] ∧ 47 ∉ n ∧ Numbered n

/-- **An entry of the item `q`**. -/
inductive OwnEntry (q : Bytes) : Bytes → Prop
  /-- Something in the folder. -/
  | child {n : Bytes} (h : LeafName n) : OwnEntry q (q ++ 47 :: n)
  /-- A chunk of the file. -/
  | chunk {t : Bytes} (h : LeafName (45 :: t)) : OwnEntry q (q ++ 45 :: t)

theorem Numbered.of_notMem {e : Bytes} (h : 45 ∉ e) : Numbered e := fun hmem => absurd hmem h

theorem Numbered.append {s t : Bytes} (hs : 45 ∉ s) (hne : t ≠ []) (ht : Numbered t) :
    Numbered (s ++ t) := by
  intro hmem
  rw [List.getLast?_append_of_ne_nil s hne]
  exact ht ((List.mem_append.mp hmem).resolve_left hs)

/-- Neither a list nor a content has a digit at its end. -/
theorem Numbered.ne_list {e : Bytes} (h : Numbered e) (p : Bytes) : e ≠ p ++ ascii "-metadata" := by
  rintro rfl
  obtain ⟨d, hd, hdigit⟩ := h (List.mem_append_right p (by decide))
  rw [List.getLast?_append_of_ne_nil p (by decide), show (ascii "-metadata").getLast? = some 97 by
    decide] at hd
  exact absurd (Option.some.inj hd ▸ hdigit) (by rw [IsDigit]; decide)

theorem Numbered.not_isContent {e : Bytes} (h : Numbered e) : ¬IsContent e := by
  rintro ⟨p, rfl⟩
  obtain ⟨d, hd, hdigit⟩ := h (List.mem_append_right p (by decide))
  rw [List.getLast?_append_of_ne_nil p (by decide), show (ascii "-content").getLast? = some 116 by
    decide] at hd
  exact absurd (Option.some.inj hd ▸ hdigit) (by rw [IsDigit]; decide)

theorem IsPath.numbered {p : Bytes} (h : IsPath p) : Numbered p := .of_notMem h.notMem_dash

theorem leafName_of_isValidName {n : Bytes} (h : isValidName n = true) : LeafName n :=
  ⟨isValidName_ne_nil h, notMem_of_isValidName h, (IsPath.of_isValidName h).numbered⟩

/-- A name that is not one has a dash in it, or is none for another reason. -/
theorem leafName_decimal (i : ℕ) : LeafName (45 :: decimal i) := by
  refine ⟨List.cons_ne_nil 45 _, ?_, fun _ => ?_⟩
  · intro hmem
    have hdigit := isDigit_of_mem_decimal ((List.mem_cons.mp hmem).resolve_left (by decide))
    exact absurd hdigit (by rw [IsDigit]; decide)
  · refine ⟨(decimal i).getLast (decimal_ne_nil i), ?_,
      isDigit_of_mem_decimal (List.getLast_mem (decimal_ne_nil i))⟩
    rw [List.getLast?_cons, List.getLast?_eq_getLast_of_ne_nil (decimal_ne_nil i)]
    rfl

theorem IsPath.isValidName_last {a n : Bytes} (h : IsPath (a ++ 47 :: n)) (hn : 47 ∉ n) :
    isValidName n = true := by
  refine h n ?_
  rw [List.splitOn_append_cons_self, List.splitOn_eq_singleton hn]
  exact List.mem_append_right _ (List.mem_singleton_self n)

namespace OwnEntry

variable {q e : Bytes}

theorem of_chunk (q : Bytes) (i : ℕ) : OwnEntry q (chunkName q i) := by
  rw [chunkName_eq]
  exact .chunk (leafName_decimal i)

theorem of_inFolder {n : Bytes} (hq : IsPath q) (hn : isValidName n = true) :
    OwnEntry q (inFolder q n) := by
  rw [hq.inFolder_eq]
  exact .child (leafName_of_isValidName hn)

theorem numbered (h : OwnEntry q e) (hq : IsPath q) : Numbered e := by
  cases h with
  | child hn =>
    refine .append hq.notMem_dash (List.cons_ne_nil _ _) ?_
    exact .append (s := [47]) (by decide) hn.1 hn.2.2
  | chunk ht => exact .append hq.notMem_dash (List.cons_ne_nil _ _) ht.2.2

/-- The last part of an entry. -/
theorem leafName (h : OwnEntry q e) (hq : IsPath q) : LeafName (afterLast 47 e) := by
  cases h with
  | child hn =>
    rw [afterLast_append q hn.2.1]
    exact hn
  | chunk ht =>
    rw [afterLast_append_of_notMem q ht.2.1]
    refine ⟨by simp, ?_, .append ?_ ht.1 ht.2.2⟩
    · rw [List.mem_append]
      exact not_or.mpr ⟨notMem_afterLast 47 q, ht.2.1⟩
    · exact fun hmem => hq.notMem_dash (mem_of_mem_afterLast hmem)

theorem ne_nil (h : OwnEntry q e) : e ≠ [] := by
  cases h with
  | child hn => simp
  | chunk ht => simp

/-- The entry under another path. -/
theorem movedChild_eq (h : OwnEntry q e) (hq : IsPath q) (new : Bytes) :
    movedChild new e = new ++ 47 :: afterLast 47 e := by
  rw [movedChild, if_neg (h.leafName hq).1]

theorem movedChild (h : OwnEntry q e) (hq : IsPath q) (new : Bytes) :
    OwnEntry new (movedChild new e) := by
  rw [h.movedChild_eq hq]
  exact .child (h.leafName hq)

/-- What is behind the path, behind another one. -/
theorem drop (h : OwnEntry q e) (new : Bytes) : OwnEntry new (new ++ e.drop q.length) := by
  cases h with
  | child hn =>
    rw [List.drop_left]
    exact .child hn
  | chunk ht =>
    rw [List.drop_left]
    exact .chunk ht

/-- A path on the list is that of something in the folder. -/
theorem exists_name (h : OwnEntry q e) (he : IsPath e) :
    ∃ n, isValidName n = true ∧ e = q ++ 47 :: n := by
  cases h with
  | child hn => exact ⟨_, he.isValidName_last hn.2.1, rfl⟩
  | chunk ht => exact absurd (List.mem_append_right q List.mem_cons_self) he.notMem_dash

/-- An entry whose last part makes a path is one. -/
theorem isPath_of_moved (h : OwnEntry q e) (hq : IsPath q) {new : Bytes}
    (hmoved : IsPath (PennCloud.movedChild new e)) : IsPath e := by
  rw [h.movedChild_eq hq] at hmoved
  have hname := hmoved.isValidName_last (notMem_afterLast 47 e)
  cases h with
  | child hn =>
    rw [afterLast_append q hn.2.1] at hname
    exact hq.append hname
  | chunk ht =>
    rw [afterLast_append_of_notMem q ht.2.1] at hname
    exact absurd (List.mem_append_right _ List.mem_cons_self)
      (IsPath.of_isValidName hname).notMem_dash

end OwnEntry

/-! ### Lists -/

/-- Entries of `q`, and empty ones; the first may be the text of an error. -/
structure OwnItems (q : Bytes) (es : List Bytes) : Prop where
  /-- The first. -/
  head : ∀ e ∈ es.head?, e = [] ∨ OwnEntry q e ∨ NotFound e
  /-- The others. -/
  tail : ∀ e ∈ es.tail, e = [] ∨ OwnEntry q e

namespace OwnItems

variable {q : Bytes} {es : List Bytes}

theorem of_forall (h : ∀ e ∈ es, e = [] ∨ OwnEntry q e) : OwnItems q es :=
  ⟨fun e he => (h e (List.mem_of_mem_head? he)).imp_right Or.inl,
    fun e he => h e (List.mem_of_mem_tail he)⟩

theorem filter (h : OwnItems q es) (p : Bytes → Bool) : OwnItems q (es.filter p) := by
  rcases es with _ | ⟨e, es⟩
  · exact h
  · rw [List.filter_cons]
    split_ifs
    · exact ⟨h.head, fun e' he' => h.tail e' (List.mem_of_mem_filter he')⟩
    · exact of_forall fun e' he' => h.tail e' (List.mem_of_mem_filter he')

theorem replaceEntry (h : OwnItems q es) (old : Bytes) {new : Bytes} (hnew : OwnEntry q new) :
    OwnItems q (replaceEntry old new es) := by
  rcases es with _ | ⟨e, es⟩
  · exact h
  · refine ⟨fun e' he' => ?_, fun e' he' => ?_⟩
    · obtain rfl := Option.some.inj he'
      dsimp only
      split_ifs
      · exact Or.inr (Or.inl hnew)
      · exact h.head e rfl
    · obtain ⟨e₀, he₀, rfl⟩ := List.mem_map.mp he'
      split_ifs
      · exact Or.inr hnew
      · exact h.tail e₀ he₀

theorem concat (h : OwnItems q es) {e : Bytes} (he : OwnEntry q e) : OwnItems q (es ++ [e]) := by
  rcases es with _ | ⟨e₀, es⟩
  · exact of_forall fun e' he' => Or.inr (List.mem_singleton.mp he' ▸ he)
  · refine ⟨h.head, fun e' he' => ?_⟩
    rcases List.mem_append.mp he' with he' | he'
    · exact h.tail e' he'
    · exact Or.inr (List.mem_singleton.mp he' ▸ he)

end OwnItems

/-- **A list of the item `q`**. -/
def OwnList (q text : Bytes) : Prop := OwnItems q (splitStringStorage text)

theorem NotFound.notMem_comma {text : Bytes} (h : NotFound text) : 44 ∉ text := by
  rcases h with rfl | rfl <;> decide

theorem NotFound.ownList {text : Bytes} (h : NotFound text) (q : Bytes) : OwnList q text := by
  rw [OwnList, splitStringStorage_of_notMem h.notMem_comma]
  refine ⟨fun e he => Or.inr (Or.inr ?_), fun e he => absurd he List.not_mem_nil⟩
  obtain rfl := Option.some.inj he
  exact h

theorem ownList_join {q : Bytes} {es : List Bytes} (h : OwnItems q es) (hes : ∀ e ∈ es, 44 ∉ e) :
    OwnList q (joinStorage es) := by
  by_cases hnil : es = []
  · rw [hnil]
    exact .of_forall fun e he => Or.inl (List.mem_singleton.mp he)
  · have hsplit : splitStringStorage (joinStorage es) = es :=
      List.splitOn_intercalate 44 hes hnil
    rwa [OwnList, hsplit]

theorem ownList_nil (q : Bytes) : OwnList q [] :=
  @ownList_join q [] (.of_forall fun _ he => absurd he List.not_mem_nil) fun _ he =>
    absurd he List.not_mem_nil

theorem OwnEntry.ownList {q e : Bytes} (h : OwnEntry q e) (hcomma : 44 ∉ e) : OwnList q e := by
  rw [OwnList, splitStringStorage_of_notMem hcomma]
  exact .of_forall fun e' he' => Or.inr (List.mem_singleton.mp he' ▸ h)

namespace OwnList

variable {q v e : Bytes}

theorem append (h : OwnList q v) (he : OwnEntry q e) (hcomma : 44 ∉ e) :
    OwnList q (v ++ 44 :: e) := by
  rw [OwnList, splitStringStorage_append, splitStringStorage_of_notMem hcomma]
  exact OwnItems.concat h he

/-- A list that can be read does not begin with the text of an error. -/
theorem mem (h : OwnList q v) (herr : isErr v = false) (he : e ∈ splitStringStorage v) :
    e = [] ∨ OwnEntry q e := by
  rcases hs : splitStringStorage v with _ | ⟨e₀, es⟩
  · exact absurd hs (splitStringStorage_ne_nil v)
  · rw [OwnList, hs] at h
    rw [hs] at he
    rcases List.mem_cons.mp he with rfl | he
    · refine (h.head e rfl).imp_right fun hor => hor.resolve_right fun hfound => ?_
      have hv : v = joinStorage (e :: es) := by
        rw [← hs]
        exact (List.intercalate_splitOn 44).symm
      have hread : isErr v = isErr e := by
        rw [hv]
        rcases es with _ | ⟨e', es⟩
        · simp [joinStorage]
        · rw [joinStorage, List.intercalate_cons_cons, List.append_assoc]
          exact isErr_append (x := 44) (by decide) (by decide) e _
      rw [hread, hfound.isErr] at herr
      exact absurd herr (by decide)
    · exact h.tail e he

/-- No list says that it is a folder. -/
theorem ne_kvFolder (h : OwnList q v) (hq : IsPath q) : v ≠ kvFolder := by
  rintro rfl
  have hself : kvFolder ∈ splitStringStorage kvFolder := by decide
  obtain ⟨d, hd, hdigit⟩ := ((h.mem (by decide) hself).resolve_left (by decide)).numbered hq
    (by decide)
  rw [show kvFolder.getLast? = some 114 by decide] at hd
  exact absurd (Option.some.inj hd ▸ hdigit) (by rw [IsDigit]; decide)

end OwnList

/-! ### Columns -/

/-- **What may be in a column**: what says that it is a folder is at one of the paths `F`, or
a content, and the list of an item has entries of its own. -/
structure Proper (F : Set Bytes) (column value : Bytes) : Prop where
  /-- Folders. -/
  folder : value = kvFolder → IsContent column ∨ (IsPath column ∧ column ∈ F)
  /-- Lists. -/
  list : ∀ q, IsPath q → column = q ++ ascii "-metadata" → OwnList q value

namespace Proper

variable {F : Set Bytes} {c v q e : Bytes}

theorem content (h : IsContent c) : Proper F c v := by
  refine ⟨fun _ => Or.inl h, ?_⟩
  rintro q - rfl
  exact absurd h (not_isContent_metadata q)

theorem marker (hc : Numbered c) (hv : v ≠ kvFolder) : Proper F c v :=
  ⟨fun heq => absurd heq hv, fun q _ heq => absurd heq (hc.ne_list q)⟩

theorem folderMarker (hc : IsPath c) (hF : c ∈ F) : Proper F c kvFolder :=
  ⟨fun _ => Or.inr ⟨hc, hF⟩, fun q _ heq => absurd heq (hc.numbered.ne_list q)⟩

theorem metadata (hq : IsPath q) (h : OwnList q v) : Proper F (q ++ ascii "-metadata") v := by
  refine ⟨fun heq => absurd heq (h.ne_kvFolder hq), fun q' _ heq => ?_⟩
  obtain rfl := List.append_cancel_right heq
  exact h

theorem listing {folder : Bytes} (hfolder : IsFolderPath folder)
    (h : IsPath folder → OwnList folder v) : Proper Set.univ (metaCol folder) v := by
  rcases hfolder with rfl | hfolder
  · exact ⟨fun _ => Or.inr ⟨by decide, Set.mem_univ _⟩, fun q _ heq =>
      absurd heq ((IsPath.numbered (by decide)).ne_list q)⟩
  · rw [hfolder.metaCol_eq]
    exact metadata hfolder (h hfolder)

theorem ownList_of_read (h : Proper F (q ++ ascii "-metadata") v ∨ NotFound v) (hq : IsPath q) :
    OwnList q v :=
  h.elim (fun hproper => hproper.list q hq rfl) fun hfound => hfound.ownList q

theorem ownList_of_listing {folder : Bytes} (h : Proper F (metaCol folder) v ∨ NotFound v)
    (hfolder : IsPath folder) : OwnList folder v := by
  rw [hfolder.metaCol_eq] at h
  exact ownList_of_read h hfolder

/-- What is read as a folder is at a path. -/
theorem path_of_read (h : Proper F e v ∨ NotFound v) (hv : v = kvFolder) (he : ¬IsContent e) :
    IsPath e ∧ e ∈ F := by
  subst hv
  refine (h.resolve_right ?_).folder rfl |>.resolve_left he
  rintro (heq | heq) <;> exact absurd heq (by decide)

end Proper

/-! ### Moving a file -/

theorem returns_moveChunks (old new : Bytes) (chunks : List Bytes) :
    (moveChunks b old new chunks).Returns fun cs =>
      cs = chunks.map (fun c => new ++ c.drop old.length) ∧
        ∀ c ∈ chunks, old.length ≤ c.length := by
  induction chunks with
  | nil => exact ⟨rfl, fun _ hc => absurd hc List.not_mem_nil⟩
  | cons chunk chunks ih =>
    rw [moveChunks]
    split_ifs with hlen
    · exact trivial
    · refine fun _ _ _ => ih.bind ?_
      rintro cs ⟨rfl, hcs⟩
      exact ⟨rfl, List.forall_mem_cons.mpr ⟨Nat.not_lt.mp hlen, hcs⟩⟩

section Files

variable {F : Set Bytes} {old new : Bytes}

theorem proper_moveChunks (old new : Bytes) (chunks : List Bytes) :
    Keeps b (Proper F) (moveChunks b old new chunks) := by
  induction chunks with
  | nil => exact trivial
  | cons chunk chunks ih =>
    rw [moveChunks]
    exact .ite (fun _ => trivial) fun _ => .get fun _ _ => .put (.content (isContent_append _))
      fun _ => .delete fun _ => ih.bind fun _ => trivial

/-- The list of the chunks under the new path. -/
theorem proper_movedList {t : Bytes} (hslash : 47 ∈ new ∨ IsPath new)
    (hpath : IsPath new → IsPath old)
    (ht : Proper F (old ++ ascii "-metadata") t ∨ NotFound t) (herr : isErr t = false)
    (hlen : ∀ c ∈ splitStringStorage t, old.length ≤ c.length) :
    Proper F (new ++ ascii "-metadata")
      (joinStorage ((splitStringStorage t).map fun c => new ++ c.drop old.length)) := by
  by_cases hnew : IsPath new
  · refine .metadata hnew (ownList_join (.of_forall fun e he => ?_) fun e he => ?_)
    · obtain ⟨c, hc, rfl⟩ := List.mem_map.mp he
      have hold := hpath hnew
      rcases (Proper.ownList_of_read ht hold).mem herr hc with rfl | hown
      · exact absurd (List.length_eq_zero_iff.mp (Nat.le_zero.mp (hlen [] hc))) hold.ne_nil
      · exact Or.inr (hown.drop new)
    · obtain ⟨c, hc, rfl⟩ := List.mem_map.mp he
      rw [List.mem_append]
      exact not_or.mpr ⟨hnew.notMem_comma, fun hmem =>
        notMem_comma_of_mem hc (List.mem_of_mem_drop hmem)⟩
  · refine ⟨fun heq => ?_, fun q hq heq => absurd (List.append_cancel_right heq ▸ hq) hnew⟩
    -- there is a slash in every entry
    have hmem : 47 ∈ joinStorage
        ((splitStringStorage t).map fun c => new ++ c.drop old.length) := by
      rcases hs : splitStringStorage t with _ | ⟨c, cs⟩
      · exact absurd hs (splitStringStorage_ne_nil t)
      · have hc : 47 ∈ new ++ c.drop old.length :=
          List.mem_append_left _ (hslash.resolve_right hnew)
        rcases cs with _ | ⟨c', cs⟩
        · simpa [joinStorage] using hc
        · rw [List.map_cons, List.map_cons, joinStorage, List.intercalate_cons_cons,
            List.append_assoc]
          exact List.mem_append_left _ hc
    rw [heq] at hmem
    exact absurd hmem (by decide)

/-- **A file that is moved** has its own list again. -/
theorem proper_relocateFile (hnumbered : Numbered new) (hslash : 47 ∈ new ∨ IsPath new)
    (hpath : IsPath new → IsPath old) : Keeps b (Proper F) (relocateFile b old new) := by
  have hcontent : Keeps b (Proper F) (moveContent b old new) := by
    refine .get fun t ht => .ite (fun hlist => ?_) fun _ => .get fun _ _ =>
      .put (.content (isContent_append new)) fun _ => .delete fun _ => trivial
    refine Prog.Relies.bind_returns (proper_moveChunks old new _) (returns_moveChunks old new _) ?_
    rintro cs ⟨rfl, hlen⟩
    exact Keeps.put (proper_movedList hslash hpath ht hlist.2 hlen) fun _ =>
      .delete fun _ => trivial
  exact hcontent.bind fun _ => .put (.marker hnumbered (by decide)) fun _ =>
    .delete fun _ => trivial

end Files

/-! ### Moving a folder -/

section Folders

variable {old new e t : Bytes}

/-- What is gone through are entries of the folder. -/
theorem OwnList.of_mem_movedChildren (h : OwnList old t) (he : e ∈ movedChildren old t) :
    OwnEntry old e ∧ 44 ∉ e := by
  obtain ⟨herr, hmem, hne⟩ := mem_movedChildren he
  exact ⟨(h.mem herr hmem).resolve_left hne, notMem_comma_of_mem hmem⟩

/-- The new listing. -/
theorem OwnList.relocated (h : OwnList old t) (hold : IsPath old) (hnew : IsPath new) :
    OwnList new (TreeMove.relocate.listing old new t) := by
  refine ownList_join (.of_forall fun e he => ?_) fun e he => ?_
  · obtain ⟨c, hc, rfl⟩ := List.mem_map.mp he
    exact Or.inr ((h.of_mem_movedChildren hc).1.movedChild hold new)
  · obtain ⟨c, hc, rfl⟩ := List.mem_map.mp he
    obtain ⟨hown, hcomma⟩ := h.of_mem_movedChildren hc
    rw [hown.movedChild_eq hold, List.mem_append, List.mem_cons]
    rintro (hmem | hmem | hmem)
    · exact hnew.notMem_comma hmem
    · exact absurd hmem (by decide)
    · exact hcomma (mem_of_mem_afterLast hmem)

/-- A folder on the list goes on from both paths with the same name. -/
theorem OwnEntry.exists_moved (h : OwnEntry old e) (he : IsPath e) (new : Bytes) :
    ∃ n, isValidName n = true ∧ e = old ++ 47 :: n ∧
      PennCloud.movedChild new e = new ++ 47 :: n := by
  obtain ⟨n, hn, rfl⟩ := h.exists_name he
  exact ⟨n, hn, rfl,
    TreeMove.relocate.target_child new old n (isValidName_ne_nil hn) (notMem_of_isValidName hn)⟩

/-- A file on the list is moved with its own list. -/
theorem OwnEntry.proper_relocateFile {F : Set Bytes} (h : OwnEntry old e) (hold : IsPath old)
    (hnew : IsPath new) : Keeps b (Proper F) (relocateFile b e (PennCloud.movedChild new e)) := by
  refine PennCloud.proper_relocateFile ?_ (Or.inl ?_) (h.isPath_of_moved hold)
  · exact (h.movedChild hold new).numbered hnew
  · rw [h.movedChild_eq hold]
    exact List.mem_append_right new List.mem_cons_self

theorem proper_moveTree (fuel : ℕ) (hold : IsPath old) (hnew : IsPath new) :
    Keeps b (Proper Set.univ) (moveTree .relocate b fuel old new) := by
  induction fuel generalizing old new with
  | zero => exact trivial
  | succ fuel ih =>
    refine .get fun t ht => ?_
    have hlist := Proper.ownList_of_read ht hold
    refine .put (.folderMarker hnew (Set.mem_univ new)) fun _ =>
      .put (.metadata hnew (hlist.relocated hold hnew)) fun _ =>
      .put (.marker hold.numbered (by decide)) fun _ => .delete fun _ => .each fun e he => ?_
    have hown := (hlist.of_mem_movedChildren he).1
    refine .get fun marker hmarker => .ite (fun hfolder => ?_) fun _ =>
      .ite (fun _ => hown.proper_relocateFile hold hnew) fun _ => trivial
    have hpath := (Proper.path_of_read hmarker hfolder (hown.numbered hold).not_isContent).1
    obtain ⟨n, hn, -, heq⟩ := hown.exists_moved hpath new
    refine ih hpath ?_
    show IsPath (movedChild new e)
    rw [heq]
    exact hnew.append hn

end Folders

/-! ### The requests -/

section Handlers

variable {path folder : Bytes}

theorem proper_removeEntry (hfolder : IsFolderPath folder) (entry : Bytes) :
    Keeps b (Proper Set.univ) (removeEntry b folder entry) := by
  refine .get fun t ht => .ite (fun _ => .delete fun _ => trivial) fun _ =>
    .put (.listing hfolder fun hpath => ?_) fun _ => trivial
  exact ownList_join ((Proper.ownList_of_listing ht hpath).filter _) fun e he =>
    notMem_comma_of_mem (List.mem_of_mem_filter he)

/-- A listing with an entry replaced. -/
theorem proper_replaceEntry {old t n : Bytes} (hfolder : IsFolderPath folder)
    (hn : isValidName n = true) (ht : Proper Set.univ (metaCol folder) t ∨ NotFound t) :
    Proper Set.univ (metaCol folder)
      (joinStorage (replaceEntry old (inFolder folder n) (splitStringStorage t))) := by
  refine .listing hfolder fun hpath => ownList_join
    ((Proper.ownList_of_listing ht hpath).replaceEntry old (.of_inFolder hpath hn)) fun e he => ?_
  obtain ⟨e₀, he₀, rfl⟩ := List.mem_map.mp he
  split_ifs
  · exact (IsPath.inFolder hfolder hn).notMem_comma
  · exact notMem_comma_of_mem he₀

theorem proper_deleteChunks (path : Bytes) : Keeps b (Proper Set.univ) (deleteChunks b path) :=
  .get fun _ _ => .ite (fun _ => .bind (.each fun _ _ => .delete fun _ => trivial) fun _ =>
    .delete fun _ => trivial) fun _ => trivial

theorem proper_deleteRec (fuel : ℕ) (hpath : Numbered path) :
    Keeps b (Proper Set.univ) (deleteRec b fuel path) := by
  induction fuel generalizing path with
  | zero => exact trivial
  | succ fuel ih =>
    refine .get fun marker hmarker => .ite (fun _ => ?_) fun hfolder =>
      .put (.marker hpath (by decide)) fun _ => .get fun t ht => .delete fun _ =>
        .ite (fun hread => .each fun e he => ih ?_) fun _ => trivial
    · exact (proper_deleteChunks path).bind fun _ => .delete fun _ => .delete fun _ => trivial
    · have hq := (Proper.path_of_read hmarker (not_not.mp hfolder) hpath.not_isContent).1
      rcases (Proper.ownList_of_read ht hq).mem hread.2 he with rfl | hown
      · exact .of_notMem List.not_mem_nil
      · exact hown.numbered hq

theorem proper_storeChunks (hpath : IsPath path) (rounds i : ℕ) (rest : Bytes) :
    Keeps b (Proper Set.univ) (storeChunks b path rounds i rest) := by
  induction rounds generalizing i rest with
  | zero => exact trivial
  | succ rounds ih =>
    rw [storeChunks]
    refine .ite (fun _ => trivial) fun _ => .get fun t ht => .put (.metadata hpath ?_) fun _ =>
      .put (.content (isContent_append _)) fun _ => ih (i + 1) _
    have hcomma := notMem_comma_chunkName hpath.notMem_comma i
    split_ifs
    · exact (OwnEntry.of_chunk path i).ownList hcomma
    · exact (Proper.ownList_of_read ht hpath).append (.of_chunk path i) hcomma

theorem proper_storeUpload {n : Bytes} (hfolder : IsFolderPath folder) (hn : isValidName n = true)
    (filename fileData : Bytes) :
    Keeps b (Proper Set.univ) (storeUpload b folder filename (inFolder folder n) fileData) := by
  have hpath := IsPath.inFolder hfolder hn
  refine .put (.marker hpath.numbered (by decide)) fun _ => (proper_storeChunks hpath _ _ _).bind
    fun _ => .get fun t ht => .cput (.listing hfolder fun hf => ?_) fun _ => trivial
  have hlist := Proper.ownList_of_listing ht hf
  have hown := OwnEntry.of_inFolder hf hn
  rw [withUpload]
  split_ifs
  · exact hown.ownList hpath.notMem_comma
  · exact hlist
  · exact hlist.append hown hpath.notMem_comma

theorem returns_freeUpload (path : Bytes) (fuel i : ℕ) :
    (freeUpload b path fuel i).Returns fun _ => 46 ∈ path := by
  induction fuel generalizing i with
  | zero => exact trivial
  | succ fuel ih =>
    rw [freeUpload]
    exact .ite (fun _ => trivial) fun hdot => .ask_bind fun _ => .ite (fun _ => ih (i + 1)) fun _ =>
      not_not.mp hdot

theorem returns_freeTarget {n : Bytes} (hn : isValidName n = true) (fuel i : ℕ) {v : Bytes}
    (hv : ∃ m, isValidName m = true ∧ v = inFolder folder m) :
    (freeTarget b folder (leafBase n) (leafExt n) fuel i v).Returns fun v =>
      ∃ m, isValidName m = true ∧ v = inFolder folder m := by
  induction fuel generalizing i v with
  | zero => exact trivial
  | succ fuel ih =>
    rw [freeTarget]
    exact .ask_bind fun _ => .ite (fun _ => ih (i + 1) ⟨_, isValidName_leaf hn i, rfl⟩) fun _ => hv

/-- Nothing is behind an entry that is empty or the text of an error. -/
def NoEntry (e : Bytes) : Prop := e = [] ∨ NotFound e

theorem NoEntry.notMem {e : Bytes} (h : NoEntry e) : 45 ∉ e ∧ 47 ∉ e ∧ isValidName e = false := by
  rcases h with rfl | rfl | rfl <;> decide

theorem NoEntry.not_isPath {e : Bytes} (h : NoEntry e) : ¬IsPath e := by
  intro hpath
  have hname := hpath e (by
    rw [List.splitOn_eq_singleton h.notMem.2.1]
    exact List.mem_singleton_self e)
  rw [h.notMem.2.2] at hname
  exact absurd hname (by decide)

/-- The requests that do not take entries elsewhere: a folder that is renamed has nothing on
its listing, and a number does not go into the folder of an upload. -/
def StorageRequest.Contained (R : Row) : StorageRequest → Prop
  | .upload folder filename _ => R (inFolder folder filename) = some kvFile → 46 ∉ folder
  | .renameFolder path _ => ∀ v, R (path ++ ascii "-metadata") = some v →
    ∀ e ∈ splitStringStorage v, NoEntry e
  | _ => True

/-- A list without entries is one of any item. -/
theorem OwnList.of_noEntry {q q' v : Bytes} (h : OwnList q v)
    (hv : ∀ e ∈ splitStringStorage v, NoEntry e) : OwnList q' v := by
  refine ⟨fun e he => (hv e (List.mem_of_mem_head? he)).imp_right Or.inr, fun e he => ?_⟩
  refine (h.tail e he).imp_right fun hown => ?_
  have hno := (hv e (List.mem_of_mem_tail he)).notMem
  cases hown with
  | child hn => exact absurd (List.mem_append_right q List.mem_cons_self) hno.2.1
  | chunk ht => exact absurd (List.mem_append_right q List.mem_cons_self) hno.1

/-- Renaming a folder without entries. -/
theorem proper_renameFolderRec (fuel : ℕ) {new : Bytes} (hpath : IsPath path) (hnew : IsPath new)
    (hkvs : Holds (Proper Set.univ) (kvs.row b))
    (hempty : ∀ e ∈ splitStringStorage (kvs.text b (path ++ ascii "-metadata")), NoEntry e) :
    Holds (Proper Set.univ)
      (((renameFolderRec b fuel path new).run (Call.exec master) kvs).2.row b) := by
  rcases fuel with _ | fuel
  · exact hkvs
  · rw [renameFolderRec, run_Get_bind]
    have hlist := Proper.ownList_of_read (hkvs.text (path ++ ascii "-metadata")) hpath
    refine Keeps.run (.put (.folderMarker hnew (Set.mem_univ new)) fun _ =>
      .put (.metadata hnew (hlist.of_noEntry hempty)) fun _ =>
      .put (.marker hpath.numbered (by decide)) fun _ => .delete fun _ => .each fun e he => ?_) hkvs
    have hno := hempty e he
    refine .get fun marker hmarker => .ite (fun hfolder => ?_) fun _ =>
      proper_relocateFile (.of_notMem ?_) (Or.inl ?_) fun hmoved => ?_
    · have hdash : ¬IsContent e := fun hc => hno.notMem.1 hc.mem
      exact absurd (Proper.path_of_read hmarker hfolder hdash).1 hno.not_isPath
    · rw [List.mem_append, List.mem_cons]
      rintro (hmem | hmem | hmem)
      · exact hnew.notMem_dash hmem
      · exact absurd hmem (by decide)
      · exact hno.notMem.1 (mem_of_mem_afterLast hmem)
    · exact List.mem_append_right new List.mem_cons_self
    · have hname := hmoved.isValidName_last (notMem_afterLast 47 e)
      rw [afterLast_of_notMem hno.notMem.2.1, hno.notMem.2.2] at hname
      exact absurd hname (by decide)

/-- A new listing of the parent adds nothing to that of the folder. -/
theorem texts_noEntry {parent m : Bytes} (hm : isValidName m = true)
    (h : ∀ v, kvs.row b (inFolder parent m ++ ascii "-metadata") = some v →
      ∀ e ∈ splitStringStorage v, NoEntry e) (value : Bytes) :
    ∀ e ∈ splitStringStorage ((kvs.put b (metaCol parent) value).text b
      (inFolder parent m ++ ascii "-metadata")), NoEntry e := by
  have hne : inFolder parent m ++ ascii "-metadata" ≠ metaCol parent :=
    (metaCol_ne_metadata (inFolder_ne_folder (isValidName_ne_nil hm)).symm).symm
  have hrow : (kvs.put b (metaCol parent) value).row b (inFolder parent m ++ ascii "-metadata") =
      kvs.row b (inFolder parent m ++ ascii "-metadata") := by
    rw [Tablet.row_put, Function.update_of_ne hne]
  rcases hv : kvs.row b (inFolder parent m ++ ascii "-metadata") with _ | v
  · have hfound := Tablet.notFound_of_row (hrow.trans hv)
    rw [splitStringStorage_of_notMem hfound.notMem_comma]
    intro e he
    exact Or.inr (List.mem_singleton.mp he ▸ hfound)
  · rw [Tablet.text_of_row (hrow.trans hv)]
    exact h v hv

/-- **What the requests keep.** -/
theorem proper_step {r : StorageRequest} (hr : r.Valid) (hcontained : r.Contained (kvs.row b))
    (fuel : ℕ) (hkvs : Holds (Proper Set.univ) (kvs.row b)) :
    Holds (Proper Set.univ) (((r.handler b fuel).run (Call.exec master) kvs).2.row b) := by
  cases r with
  | list folder =>
    refine Keeps.run (.onWorker (.get fun t _ => .bind ?_ fun _ => ?_)) hkvs
    · exact .ite (fun _ => .put (.listing hr fun _ => ownList_nil folder) fun _ => trivial)
        fun _ => trivial
    · exact .ite (fun _ => .of_reads (reads_listPage folder t)) fun _ => .get fun _ _ =>
        .ite (fun _ => trivial) fun _ => .of_reads (reads_listPage folder t)
  | upload folder filename fileData =>
    obtain ⟨hfolder, hname⟩ := hr
    refine hkvs.run_onWorker ?_
    split_ifs
    · exact hkvs
    · rw [run_Get_bind]
      split_ifs with htaken
      · have hdot := hcontained ((Tablet.text_eq_iff isErr_kvFile).mp htaken)
        refine Keeps.run (Prog.Relies.bind_returns (Keeps.of_reads (reads_freeUpload _ _ _))
          (returns_freeUpload _ _ _) fun i hdot' => ?_) hkvs
        rw [variantPath_inFolder hdot i]
        exact proper_storeUpload hfolder
          (isValidName_variantPath hname (dot_mem_of_inFolder hdot hdot') i) _ fileData
      · exact (proper_storeUpload hfolder hname filename fileData).run hkvs
  | createFolder parent name =>
    obtain ⟨hparent, hname⟩ := hr
    have hpath := IsPath.inFolder hparent hname
    have hmake : Keeps b (Proper Set.univ) (makeFolder b parent name (inFolder parent name)) :=
      .put (.folderMarker hpath (Set.mem_univ _)) fun _ =>
        .put (.metadata hpath (ownList_nil _)) fun _ => trivial
    refine Keeps.run (.onWorker (.ite (fun _ => trivial) fun _ => .get fun _ _ =>
      .ite (fun _ => trivial) fun _ => .get fun t ht => .ite (fun _ => hmake) fun _ =>
        .put (.listing hparent fun hp => ?_) fun _ => hmake)) hkvs
    have hown := OwnEntry.of_inFolder hp hname
    split_ifs
    · exact hown.ownList hpath.notMem_comma
    · exact (Proper.ownList_of_listing ht hp).append hown hpath.notMem_comma
  | delete path =>
    obtain ⟨folder, n, hfolder, hn, rfl⟩ := IsPath.exists_inFolder hr
    refine Keeps.run (.onWorker (.get fun t ht => .put ?_ fun _ =>
      (proper_deleteRec fuel (IsPath.numbered hr)).bind fun _ => .get fun _ _ => trivial)) hkvs
    rw [beforeLast_inFolder hn] at ht ⊢
    exact .listing hfolder fun hp => ownList_join ((Proper.ownList_of_listing ht hp).filter _)
      fun e he => notMem_comma_of_mem (List.mem_of_mem_filter he)
  | renameFile folder oldName newName =>
    obtain ⟨hfolder, hold, hnew⟩ := hr
    have hname := isValidName_ensureSameExtension hold hnew
    have hpath := IsPath.inFolder hfolder hname
    exact Keeps.run (.onWorker (.ite (fun _ => trivial) fun _ => .get fun _ _ =>
      .ite (fun _ => trivial) fun _ =>
        (proper_relocateFile hpath.numbered (Or.inr hpath) fun _ =>
            IsPath.inFolder hfolder hold).bind fun _ => .get fun t ht =>
          .put (proper_replaceEntry hfolder hname ht) fun _ => trivial)) hkvs
  | renameFolder path newName =>
    obtain ⟨hpath, hnew⟩ := hr
    obtain ⟨parent, m, hparent, hm, rfl⟩ := hpath.exists_inFolder
    refine hkvs.run_onWorker ?_
    split_ifs
    · exact hkvs
    · rw [run_Get_bind, beforeLast_inFolder hm]
      split_ifs
      · exact hkvs
      · rw [run_Get_bind, run_Put_bind]
        have hput := @proper_replaceEntry _ (inFolder parent m) _ _ hparent hnew
          (hkvs.text (metaCol parent))
        have hempty := texts_noEntry hm hcontained (joinStorage (replaceEntry (inFolder parent m)
          (inFolder parent newName) (splitStringStorage (kvs.text b (metaCol parent)))))
        have hrec := @proper_renameFolderRec master _ b _ fuel _ hpath
          (IsPath.inFolder hparent hnew) (hkvs.put hput) hempty
        refine Holds.run_bind hrec fun _ s hs => ?_
        rwa [hs] at hrec
  | moveFile source filename target =>
    obtain ⟨hsource, hname, htarget⟩ := hr
    refine Keeps.run (.onWorker (.ite (fun _ => trivial) fun _ => .bind ?_ fun _ => trivial)) hkvs
    rw [moveFile, beforeLast_inFolder hname, afterLast_inFolder hname]
    refine Prog.Relies.bind_returns (Keeps.of_reads (reads_freeTarget _ _ _ _ _ _))
      (returns_freeTarget hname fuel 1 ⟨filename, hname, rfl⟩) ?_
    rintro v ⟨m, hm, rfl⟩
    have hpath := IsPath.inFolder htarget hm
    refine Keeps.bind (proper_relocateFile hpath.numbered (Or.inr hpath) fun _ =>
      IsPath.inFolder hsource hname) fun _ => .get fun t ht => .put (.listing htarget fun hp => ?_)
        fun _ => (proper_removeEntry hsource _).bind fun _ => trivial
    rw [joinStorage_concat hpath.notMem_comma]
    exact (Proper.ownList_of_listing ht hp).append (.of_inFolder hp hm) hpath.notMem_comma
  | moveFolder source target =>
    obtain ⟨hsource, htarget⟩ := hr
    obtain ⟨folder, n, hfolder, hn, rfl⟩ := hsource.exists_inFolder
    refine Keeps.run (.onWorker (.ite (fun _ => trivial) fun _ => .get fun _ _ =>
      .ite (fun _ => trivial) fun _ => .ite (fun _ => trivial) fun _ =>
        .bind ?_ fun _ => trivial)) hkvs
    rw [moveFolder, renameFolderMoveRec_eq, afterLast_inFolder hn, beforeLast_inFolder hn]
    have hpath := IsPath.inFolder htarget hn
    refine Keeps.bind (proper_moveTree fuel hsource hpath) fun _ => .get fun t ht =>
      .put (.listing htarget fun hp => ?_) fun _ => proper_removeEntry hfolder _
    have hown := OwnEntry.of_inFolder hp hn
    split_ifs
    · exact hown.ownList hpath.notMem_comma
    · exact (Proper.ownList_of_listing ht hp).append hown hpath.notMem_comma

end Handlers

/-- **In a run without the two, every list has entries of its own.** -/
theorem ownLists_of_reaches {kvs₀ : Tablet} (h0 : ∀ c, kvs₀.row b c = none)
    (h : Runs.Reaches (StorageRequest.step master b)
      (fun s e => e.2.Valid ∧ e.2.Contained (s.row b)) kvs₀ kvs) :
    Holds (Proper Set.univ) (kvs.row b) :=
  h.invariant (P := fun s : Tablet => Holds (Proper Set.univ) (s.row b))
    (fun c v hv => absurd ((h0 c).symm.trans hv) (Option.some_ne_none v).symm)
    fun _ e hs he => proper_step he.1 he.2 e.1 hs

end PennCloud
