import PennCloud.Lib.FileTree
import PennCloud.Frontend.Storage.Complete
import PennCloud.Frontend.Storage.Deletion
import PennCloud.Frontend.Storage.FolderMoves
import PennCloud.Frontend.Storage.Uploads

/-!
# The row of a user as a file system

What the columns of a row are there for is a tree of files and folders. The path of
an item is the list of its names, `PennCloud.pathOf` is the text it is known by, and
`PennCloud.Represents` says that a row keeps a given tree: every item has its marker
and a file its bytes in chunks, every folder lists what is in it, and of a path where
nothing is there is no list left that a later upload could take for its own.

A row that represents a tree is in good order (`PennCloud.Represents.wellFormed`). What
an operation has to show is said once, in `PennCloud.Represents.of_changes`: the paths it
has touched are as the new tree has them, the listings are those of the new tree, and
everything else is as before.
-/

namespace PennCloud

open Wire Calls Text

/-! ### Paths as lists of names -/

/-- A name that `isValidName` accepts. -/
abbrev ItemName := {n : Bytes // isValidName n = true}

/-- The text of a path. -/
def pathOf (p : List ItemName) : Bytes := p.foldl (fun folder n => inFolder folder n.1) []

@[simp] theorem pathOf_nil : pathOf [] = [] := rfl

theorem pathOf_concat (p : List ItemName) (n : ItemName) :
    pathOf (p ++ [n]) = inFolder (pathOf p) n.1 := by
  rw [pathOf, List.foldl_append]
  rfl

theorem isFolderPath_pathOf (p : List ItemName) : IsFolderPath (pathOf p) := by
  induction p using List.reverseRecOn with
  | nil => exact Or.inl rfl
  | append_singleton p n ih =>
    rw [pathOf_concat]
    exact Or.inr (IsPath.inFolder ih n.2)

theorem isPath_pathOf {p : List ItemName} (hp : p ≠ []) : IsPath (pathOf p) := by
  rcases List.eq_nil_or_concat p with rfl | ⟨p, n, rfl⟩
  · exact absurd rfl hp
  · rw [List.concat_eq_append, pathOf_concat]
    exact IsPath.inFolder (isFolderPath_pathOf p) n.2

theorem pathOf_ne_nil {p : List ItemName} (hp : p ≠ []) : pathOf p ≠ [] :=
  (isPath_pathOf hp).ne_nil

theorem pathOf_injective : Function.Injective pathOf := by
  intro p
  induction p using List.reverseRecOn with
  | nil =>
    intro q h
    by_contra hne
    exact pathOf_ne_nil (Ne.symm hne) h.symm
  | append_singleton p n ih =>
    intro q h
    rcases List.eq_nil_or_concat q with rfl | ⟨q, m, rfl⟩
    · exact absurd h (pathOf_ne_nil (by simp))
    · rw [List.concat_eq_append, pathOf_concat, pathOf_concat] at h
      have hfolder := congrArg (beforeLast 47) h
      have hname := congrArg (afterLast 47) h
      rw [beforeLast_inFolder n.2, beforeLast_inFolder m.2] at hfolder
      rw [afterLast_inFolder n.2, afterLast_inFolder m.2] at hname
      rw [List.concat_eq_append, ih hfolder, Subtype.ext hname]

/-- Every path is the text of a list of names. -/
theorem IsPath.exists_pathOf {v : Bytes} (hv : IsPath v) : ∃ p, p ≠ [] ∧ v = pathOf p := by
  refine hv.induction (P := fun v => ∃ p, p ≠ [] ∧ v = pathOf p) ?_
  intro folder n hfolder hn ih
  have hex : ∃ p, folder = pathOf p := by
    rcases hfolder with rfl | hfolder
    · exact ⟨[], rfl⟩
    · obtain ⟨p, -, hp⟩ := ih hfolder
      exact ⟨p, hp⟩
  obtain ⟨p, rfl⟩ := hex
  exact ⟨p ++ [⟨n, hn⟩], by simp, (pathOf_concat p ⟨n, hn⟩).symm⟩

theorem IsFolderPath.exists_pathOf {v : Bytes} (hv : IsFolderPath v) : ∃ p, v = pathOf p := by
  rcases hv with rfl | hv
  · exact ⟨[], rfl⟩
  · obtain ⟨p, -, hp⟩ := hv.exists_pathOf
    exact ⟨p, hp⟩

/-- What is below a path is below its text. -/
theorem under_pathOf_append (p s : List ItemName) (hp : p ≠ []) :
    Under (pathOf p) (pathOf (p ++ s)) := by
  induction s using List.reverseRecOn with
  | nil =>
    rw [List.append_nil]
    exact Under.refl _
  | append_singleton s n ih =>
    rw [← List.append_assoc, pathOf_concat]
    exact ih.trans ((isPath_pathOf (by simp [hp])).under_inFolder n.1)

/-- **Below in the one sense and in the other.** -/
theorem under_pathOf_iff {p q : List ItemName} (hp : p ≠ []) :
    Under (pathOf p) (pathOf q) ↔ p <+: q := by
  constructor
  · intro h
    induction q using List.reverseRecOn with
    | nil =>
      obtain ⟨t, heq, -⟩ := h
      exact absurd (List.append_eq_nil_iff.mp heq.symm).1 (pathOf_ne_nil hp)
    | append_singleton q n ih =>
      rw [pathOf_concat] at h
      rcases under_inFolder (isFolderPath_pathOf q) n.2 h with heq | ⟨-, hunder⟩
      · rw [← pathOf_concat] at heq
        rw [pathOf_injective heq]
      · exact (ih hunder).trans (List.prefix_append q [n])
  · rintro ⟨s, rfl⟩
    exact under_pathOf_append p s hp

/-- A path below another one, in letters. -/
theorem pathOf_append_eq {p q : List ItemName} (hp : p ≠ []) (hq : q ≠ []) (s : List ItemName) :
    ∃ t, (∀ x ∈ t.head?, x = 47) ∧ pathOf (p ++ s) = pathOf p ++ t ∧
      pathOf (q ++ s) = pathOf q ++ t := by
  induction s using List.reverseRecOn with
  | nil => exact ⟨[], by simp, by simp, by simp⟩
  | append_singleton s n ih =>
    obtain ⟨t, ht, hpt, hqt⟩ := ih
    refine ⟨t ++ 47 :: n.1, fun x hx => ?_, ?_, ?_⟩
    · rcases t with _ | ⟨y, t⟩
      · exact (Option.some.inj hx).symm
      · exact ht x hx
    · rw [← List.append_assoc, pathOf_concat, hpt,
        inFolder, if_neg (by simp [pathOf_ne_nil hp]), List.append_assoc]
    · rw [← List.append_assoc, pathOf_concat, hqt,
        inFolder, if_neg (by simp [pathOf_ne_nil hq]), List.append_assoc]

/-- The name of the column in which the listing of the root is kept. -/
def rootName : ItemName := ⟨ascii "metadata", by decide⟩

theorem pathOf_eq_metadata {p : List ItemName} : pathOf p = ascii "metadata" ↔ p = [rootName] :=
  ⟨fun h => pathOf_injective (h.trans (pathOf_concat [] rootName).symm), fun h => h ▸ rfl⟩

/-- The listing of a folder is no column of another item. -/
theorem not_columnOf_metaCol_pathOf {p q : List ItemName} (hq : q ≠ []) (hqp : q ≠ p)
    (hroot : q ≠ [rootName]) : ¬ColumnOf (pathOf q) (metaCol (pathOf p)) := by
  intro hcol
  rcases columnOf_metaCol (isFolderPath_pathOf p) (isPath_pathOf hq) hcol with ⟨-, heq⟩ | ⟨-, heq⟩
  · exact hqp (pathOf_injective heq)
  · exact hroot (pathOf_eq_metadata.mp heq)

/-- The columns of an item are no columns of another one. -/
theorem not_columnOf_pathOf {p q : List ItemName} (hp : p ≠ []) (hq : q ≠ []) (hqp : q ≠ p)
    {c : Bytes} (hc : ColumnOf (pathOf q) c) : ¬ColumnOf (pathOf p) c := fun hcol =>
  hqp (pathOf_injective (ColumnOf.eq (isPath_pathOf hq).notMem_dash (isPath_pathOf hp).notMem_dash
    hc hcol))

/-! ### Trees and rows -/

/-- The marker of an item. -/
def FileItem.kind {D : Type} : FileItem D → Kind
  | .folder => .folder
  | .file _ => .file

/-- A row has at a path what a tree has there: of a file its bytes in chunks, and
where nothing is no list either. -/
def Shows (R : Row) (v : Bytes) : Option (FileItem Bytes) → Prop
  | none => ¬Live R v ∧ R (v ++ ascii "-metadata") = none
  | some .folder => R v = some kvFolder
  | some (.file d) => R v = some kvFile ∧ (∃ k, Chunks R v k) ∧ bytesOf R v = d ∧ d ≠ []

/-- A list has the paths of what is in a folder, each of them once. -/
structure Lists (es : List Bytes) (t : FileTree ItemName Bytes) (p : List ItemName) : Prop where
  /-- Each is on it once. -/
  nodup : es.Nodup
  /-- What is on it. -/
  mem_iff : ∀ e, e ∈ es ↔ ∃ n, e = pathOf (p ++ [n]) ∧ t.item (p ++ [n]) ≠ none

/-- **A row represents a tree.** -/
structure Represents (R : Row) (t : FileTree ItemName Bytes) : Prop where
  /-- The items. -/
  items : ∀ p, p ≠ [] → Shows R (pathOf p) (t.item p)
  /-- The listings. -/
  listings : ∀ p, t.item p = some .folder → Lists (entriesOf R (pathOf p)) t p
  /-- No path begins with `ERR`. -/
  names : ∀ p, p ≠ [] → t.item p ≠ none → isErr (pathOf p) = false
  /-- No item is where the listing of the root is. -/
  root : t.item [rootName] = none

namespace Lists

variable {es : List Bytes} {t t' : FileTree ItemName Bytes} {p : List ItemName} {n : ItemName}

/-- Only what is in the folder matters. -/
theorem congr (h : Lists es t p) (hitems : ∀ m, t'.item (p ++ [m]) = t.item (p ++ [m])) :
    Lists es t' p := by
  refine ⟨h.nodup, fun e => (h.mem_iff e).trans (exists_congr fun m => and_congr_right fun _ => ?_)⟩
  rw [hitems m]

/-- What is not there is not on the list. -/
theorem notMem (h : Lists es t p) (hn : t.item (p ++ [n]) = none) : pathOf (p ++ [n]) ∉ es := by
  intro hmem
  obtain ⟨m, heq, hm⟩ := (h.mem_iff _).mp hmem
  exact hm (pathOf_injective heq ▸ hn)

/-- An item more. -/
theorem concat (h : Lists es t p) (hfree : t.item (p ++ [n]) = none)
    (hself : t'.item (p ++ [n]) ≠ none)
    (hother : ∀ m, m ≠ n → t'.item (p ++ [m]) = t.item (p ++ [m])) :
    Lists (es ++ [pathOf (p ++ [n])]) t' p := by
  refine ⟨h.nodup.append (List.nodup_singleton _) ?_, fun e => ?_⟩
  · exact List.disjoint_singleton.mpr (h.notMem hfree)
  · rw [List.mem_append, List.mem_singleton, h.mem_iff]
    constructor
    · rintro (⟨m, rfl, hm⟩ | rfl)
      · by_cases hmn : m = n
        · exact ⟨n, by rw [hmn], hself⟩
        · exact ⟨m, rfl, by rwa [hother m hmn]⟩
      · exact ⟨n, rfl, hself⟩
    · rintro ⟨m, rfl, hm⟩
      by_cases hmn : m = n
      · exact Or.inr (by rw [hmn])
      · exact Or.inl ⟨m, rfl, by rwa [← hother m hmn]⟩

/-- An item less. -/
theorem erase (h : Lists es t p) (hself : t'.item (p ++ [n]) = none)
    (hother : ∀ m, m ≠ n → t'.item (p ++ [m]) = t.item (p ++ [m])) :
    Lists (es.filter fun e => e ≠ pathOf (p ++ [n])) t' p := by
  refine ⟨h.nodup.filter _, fun e => ?_⟩
  rw [List.mem_filter, decide_eq_true_iff, h.mem_iff]
  constructor
  · rintro ⟨⟨m, rfl, hm⟩, hne⟩
    exact ⟨m, rfl, by rwa [hother m fun heq => hne (by rw [heq])]⟩
  · rintro ⟨m, rfl, hm⟩
    by_cases hmn : m = n
    · rw [hmn] at hm
      exact absurd hself hm
    · rw [hother m hmn] at hm
      refine ⟨⟨m, rfl, hm⟩, fun heq => hmn ?_⟩
      simpa using pathOf_injective heq

end Lists

section Shows

variable {R R' : Row} {v : Bytes} {x : Option (FileItem Bytes)}

theorem Shows.live_iff (h : Shows R v x) : Live R v ↔ x ≠ none := by
  rcases x with _ | _ | d
  · simp [h.1]
  · exact iff_of_true (Or.inr h) (by simp)
  · exact iff_of_true (Or.inl h.1) (by simp)

theorem Shows.folder_iff (h : Shows R v x) : R v = some kvFolder ↔ x = some .folder := by
  rcases x with _ | _ | d
  · exact iff_of_false (fun hf => h.1 (Or.inr hf)) (by simp)
  · exact iff_of_true h rfl
  · refine iff_of_false (fun hf => ?_) (by simp)
    rw [h.1] at hf
    exact absurd hf (by decide)

theorem Shows.file_iff (h : Shows R v x) : R v = some kvFile ↔ ∃ d, x = some (.file d) := by
  rcases x with _ | _ | d
  · exact iff_of_false (fun hf => h.1 (Or.inl hf)) (by simp)
  · refine iff_of_false (fun hf => ?_) (by simp)
    rw [show R v = some kvFolder from h] at hf
    exact absurd hf (by decide)
  · exact iff_of_true h.1 ⟨d, rfl⟩

/-- What is kept for an item is in its own columns; for a folder, in the first of
them. -/
theorem Shows.congr (h : Shows R v x) (hcomma : 44 ∉ v)
    (hrow : ∀ c, ColumnOf v c → (x = some .folder → c = v) → R' c = R c) : Shows R' v x := by
  have hself : R' v = R v := hrow v (ColumnOf.refl v) fun _ => rfl
  rcases x with _ | _ | d
  · refine ⟨fun hlive => h.1 ?_, ?_⟩
    · rw [Live, hself] at hlive
      exact hlive
    · rw [hrow _ (columnOf_metadata v) (by simp)]
      exact h.2
  · exact hself.trans h
  · obtain ⟨hfile, ⟨k, hch⟩, hbytes, hne⟩ := h
    have hcols : ∀ c, ColumnOf v c → R' c = R c := fun c hc => hrow c hc (by simp)
    exact ⟨hself.trans hfile, ⟨k, hch.congr hcols⟩, (hch.bytesOf_congr hcomma hcols).trans hbytes,
      hne⟩

end Shows

namespace Represents

variable {R R' : Row} {t t' : FileTree ItemName Bytes} {p q : List ItemName}

/-! ### What the tree says about the row -/

theorem live_iff (h : Represents R t) (hp : p ≠ []) : Live R (pathOf p) ↔ t.item p ≠ none :=
  (h.items p hp).live_iff

theorem existing_iff (h : Represents R t) :
    Existing R (pathOf p) ↔ t.item p = some .folder := by
  by_cases hp : p = []
  · rw [hp]
    exact iff_of_true (Or.inl rfl) t.root
  · rw [← (h.items p hp).folder_iff]
    exact or_iff_right (pathOf_ne_nil hp)

theorem not_live_metadata (h : Represents R t) : ¬Live R (ascii "metadata") := by
  have hroot : ¬Live R (pathOf [rootName]) := fun hlive =>
    (h.live_iff (List.cons_ne_nil _ _)).mp hlive h.root
  exact hroot

/-- The entries of a listing, by the markers of the row. -/
theorem listsChildren (h : Represents R t) (hp : t.item p = some .folder) :
    ListsChildren R (pathOf p) := by
  refine ⟨(h.listings p hp).nodup, fun e => ((h.listings p hp).mem_iff e).trans ?_⟩
  constructor
  · rintro ⟨n, rfl, hn⟩
    exact ⟨n.1, n.2, pathOf_concat p n, (h.live_iff (by simp)).mpr hn⟩
  · rintro ⟨n, hn, rfl, hlive⟩
    have heq : inFolder (pathOf p) n = pathOf (p ++ [⟨n, hn⟩]) := (pathOf_concat p ⟨n, hn⟩).symm
    exact ⟨⟨n, hn⟩, heq, (h.live_iff (by simp)).mp (heq ▸ hlive)⟩

/-- **A row that represents a tree is in good order.** -/
theorem wellFormed (h : Represents R t) : WellFormed R := by
  refine ⟨fun folder n hfolder hn hlive => ?_, fun q hq hex => ?_, fun q hq hfile => ?_,
    fun q hq hlive => ?_, h.not_live_metadata⟩
  · obtain ⟨p, rfl⟩ := hfolder.exists_pathOf
    rw [h.existing_iff]
    refine t.parent p ⟨n, hn⟩ ((h.live_iff (by simp)).mp ?_)
    rw [pathOf_concat]
    exact hlive
  · obtain ⟨p, rfl⟩ := hq.exists_pathOf
    exact h.listsChildren (h.existing_iff.mp hex)
  · obtain ⟨p, hp, rfl⟩ := hq.exists_pathOf
    obtain ⟨d, hd⟩ := (h.items p hp).file_iff.mp hfile
    have hshows := h.items p hp
    rw [hd] at hshows
    exact hshows.2.1
  · obtain ⟨p, hp, rfl⟩ := hq.exists_pathOf
    exact h.names p hp ((h.live_iff hp).mp hlive)

/-! ### The general step -/

/-- A row in good order represents the tree of its items. -/
theorem of_wellFormed (hgood : WellFormed R)
    (hitems : ∀ p, p ≠ [] → Shows R (pathOf p) (t.item p)) : Represents R t := by
  have hlive : ∀ {p}, p ≠ [] → (Live R (pathOf p) ↔ t.item p ≠ none) := fun hp =>
    (hitems _ hp).live_iff
  refine ⟨hitems, fun p hp => ?_, fun p hp hne => ?_, ?_⟩
  · have hex : Existing R (pathOf p) := by
      by_cases hnil : p = []
      · exact Or.inl (by rw [hnil, pathOf_nil])
      · exact Or.inr ((hitems p hnil).folder_iff.mpr hp)
    have hlists := hgood.listings _ (isFolderPath_pathOf p) hex
    refine ⟨hlists.nodup, fun e => (hlists.mem_iff e).trans ?_⟩
    constructor
    · rintro ⟨n, hn, rfl, hl⟩
      have heq : inFolder (pathOf p) n = pathOf (p ++ [⟨n, hn⟩]) := (pathOf_concat p ⟨n, hn⟩).symm
      exact ⟨⟨n, hn⟩, heq, (hlive (by simp)).mp (heq ▸ hl)⟩
    · rintro ⟨n, rfl, hn⟩
      exact ⟨n.1, n.2, pathOf_concat p n, (hlive (by simp)).mpr hn⟩
  · exact hgood.names _ (isPath_pathOf hp) ((hlive hp).mpr hne)
  · by_contra hne
    exact hgood.root ((hlive (List.cons_ne_nil _ _)).mpr hne)

/-- **What an operation has to show.** Some paths are touched, and the row has there
what the new tree has; the listings are those of the new tree; of every other path the
columns are as before, listings of folders aside. -/
theorem of_changes (h : Represents R t) {T : List ItemName → Prop}
    (hsame : ∀ q, ¬T q → t'.item q = t.item q)
    (hrow : ∀ q, q ≠ [] → ¬T q → ∀ c, ColumnOf (pathOf q) c →
      (∀ f, t.item f = some .folder → c ≠ metaCol (pathOf f)) → R' c = R c)
    (hnew : ∀ q, q ≠ [] → T q → Shows R' (pathOf q) (t'.item q))
    (hlist : ∀ f, t'.item f = some .folder → Lists (entriesOf R' (pathOf f)) t' f)
    (hnames : ∀ q, q ≠ [] → T q → t'.item q ≠ none → isErr (pathOf q) = false)
    (hroot : t'.item [rootName] = none) : Represents R' t' := by
  -- the marker of an item is no listing, but for the root's
  have hmarker : ∀ q, q ≠ [] → q ≠ [rootName] → ∀ f, pathOf q ≠ metaCol (pathOf f) := by
    intro q hq hqroot f heq
    rcases columnOf_metaCol (isFolderPath_pathOf f) (isPath_pathOf hq) (heq ▸ ColumnOf.refl _) with
      ⟨-, hqf⟩ | ⟨-, hqf⟩
    · exact metaCol_ne_self (heq.symm.trans hqf)
    · exact hqroot (pathOf_eq_metadata.mp hqf)
  refine ⟨fun q hq => ?_, hlist, fun q hq hlive => ?_, hroot⟩
  · by_cases hT : T q
    · exact hnew q hq hT
    rw [hsame q hT]
    have hshows := h.items q hq
    by_cases hqroot : q = [rootName]
    · -- the column of the root's listing has paths on it
      subst hqroot
      rw [h.root] at hshows ⊢
      refine ⟨?_, ?_⟩
      · refine PennCloud.not_live_metadata fun e he => ?_
        obtain ⟨n, rfl, -⟩ := ((hlist [] t'.root).mem_iff e).mp he
        exact (isPath_pathOf (by simp)).notMem_dash
      · rw [hrow _ hq hT _ (columnOf_metadata _) fun f hf heq => ?_]
        · exact hshows.2
        · have hcol := columnOf_metadata (pathOf [rootName])
          rw [heq] at hcol
          rcases columnOf_metaCol (isFolderPath_pathOf f) (isPath_pathOf hq) hcol with
            ⟨-, hqf⟩ | ⟨hroot', -⟩
          · rw [← pathOf_injective hqf, h.root] at hf
            exact absurd hf (by simp)
          · rw [hroot'] at heq
            exact absurd heq (by decide)
    · refine hshows.congr (isPath_pathOf hq).notMem_comma fun c hc hfolder => ?_
      refine hrow q hq hT c hc fun f hf heq => ?_
      by_cases hx : t.item q = some .folder
      · exact hmarker q hq hqroot f ((hfolder hx).symm.trans heq)
      · exact not_columnOf_metaCol_pathOf hq (fun hqf => hx (hqf ▸ hf)) hqroot (heq ▸ hc)
  · by_cases hT : T q
    · exact hnames q hq hT hlive
    · rw [hsame q hT] at hlive
      exact h.names q hq hlive

/-! ### An item more -/

/-- An item was put into a folder. -/
theorem create (h : Represents R t) {n : ItemName} {x : FileItem Bytes} (hc : t.CanCreate p n)
    (hplain : p ++ [n] ≠ [rootName]) (herr : isErr (pathOf (p ++ [n])) = false)
    (hitem : Shows R' (pathOf (p ++ [n])) (some x))
    (hempty : x = .folder → entriesOf R' (pathOf (p ++ [n])) = [])
    (hlisting : entriesOf R' (pathOf p) = entriesOf R (pathOf p) ++ [pathOf (p ++ [n])])
    (houtside : ∀ c, ¬ColumnOf (pathOf (p ++ [n])) c → c ≠ metaCol (pathOf p) → R' c = R c) :
    Represents R' (t.create p n x hc) := by
  have hself : p ++ [n] ≠ [] := by simp
  refine h.of_changes (T := fun q => q = p ++ [n]) (fun q hq => FileTree.item_create_of_ne hc hq)
    (fun q hq hT c hcol hlist => ?_) ?_ (fun f hf => ?_) ?_ ?_
  · exact houtside c (not_columnOf_pathOf hself hq hT hcol) (hlist p hc.folder)
  · rintro q - rfl
    rw [FileTree.item_create_self]
    exact hitem
  · by_cases hfn : f = p ++ [n]
    · -- the new folder has nothing in it
      subst hfn
      have hx : x = .folder := by simpa using hf
      rw [hempty hx]
      refine ⟨List.nodup_nil, fun e => iff_of_false List.not_mem_nil ?_⟩
      rintro ⟨m, -, hm⟩
      rw [FileTree.item_create_of_ne hc (by simp)] at hm
      exact hm (t.item_eq_none_of_prefix hc.free (List.prefix_append _ _))
    · rw [FileTree.item_create_of_ne hc hfn] at hf
      have hlists := h.listings f hf
      by_cases hfp : f = p
      · subst hfp
        rw [hlisting]
        refine hlists.concat hc.free (by simp) fun m hm => ?_
        exact FileTree.item_create_of_ne hc (by simpa using hm)
      · rw [entriesOf_congr (houtside _ (not_columnOf_metaCol_pathOf hself (Ne.symm hfn) hplain)
          fun heq => hfp (pathOf_injective (metaCol_inj heq)))]
        refine hlists.congr fun m => FileTree.item_create_of_ne hc fun heq => ?_
        exact hfp (List.append_inj' heq rfl).1
  · rintro q - rfl -
    exact herr
  · rw [FileTree.item_create_of_ne hc hplain.symm]
    exact h.root

/-! ### A subtree less -/

/-- A subtree was taken away. -/
theorem remove (h : Represents R t) {n : ItemName} (hlive : t.item (p ++ [n]) ≠ none)
    (hgone : ∀ q, p ++ [n] <+: q → Shows R' (pathOf q) none)
    (hlisting : entriesOf R' (pathOf p) =
      (entriesOf R (pathOf p)).filter fun e => e ≠ pathOf (p ++ [n]))
    (houtside : ∀ c, (∀ q, p ++ [n] <+: q → ¬ColumnOf (pathOf q) c) → c ≠ metaCol (pathOf p) →
      R' c = R c) :
    Represents R' (t.remove (p ++ [n]) (by simp)) := by
  have hp : p ++ [n] ≠ [] := by simp
  have hbelow : ∀ q, p ++ [n] <+: q → q ≠ [] ∧ q ≠ [rootName] := by
    intro q hq
    refine ⟨fun hnil => hp (List.prefix_nil.mp (hnil ▸ hq)), fun hroot => ?_⟩
    -- nothing is where the root's listing is
    rw [hroot] at hq
    rcases List.prefix_concat_iff.mp (show p ++ [n] <+: [] ++ [rootName] from hq) with heq | hnil
    · exact hlive (heq ▸ h.root)
    · exact hp (List.prefix_nil.mp hnil)
  refine h.of_changes (T := fun q => p ++ [n] <+: q)
    (fun q hq => FileTree.item_remove_of_not hp hq) (fun q hq hT c hc hlist => ?_)
    (fun q _ hT => ?_) (fun f hf => ?_) (fun q _ hT hne => ?_) ?_
  · refine houtside c (fun q' hq' => ?_) (hlist p (t.parent p n hlive))
    exact not_columnOf_pathOf (hbelow q' hq').1 hq (fun heq => hT (heq ▸ hq')) hc
  · rw [FileTree.item_remove_below hp hT]
    exact hgone q hT
  · have hnot : ¬p ++ [n] <+: f := fun hpre => by
      rw [FileTree.item_remove_below hp hpre] at hf
      exact absurd hf (by simp)
    rw [FileTree.item_remove_of_not hp hnot] at hf
    have hlists := h.listings f hf
    have hchild : ∀ m, f ++ [m] ≠ p ++ [n] → (t.remove (p ++ [n]) hp).item (f ++ [m]) =
        t.item (f ++ [m]) := by
      intro m hm
      refine FileTree.item_remove_of_not hp fun hpre => ?_
      exact (FileTree.prefix_concat hpre).elim hnot fun heq => hm heq.symm
    by_cases hfp : f = p
    · subst hfp
      rw [hlisting]
      exact hlists.erase (FileTree.item_remove_below hp (List.prefix_refl _)) fun m hm =>
        hchild m (by simpa using hm)
    · have hsame : R' (metaCol (pathOf f)) = R (metaCol (pathOf f)) := by
        refine houtside _ (fun q hq => ?_) fun heq => hfp (pathOf_injective (metaCol_inj heq))
        exact not_columnOf_metaCol_pathOf (hbelow q hq).1 (fun heq => hnot (heq ▸ hq))
          (hbelow q hq).2
      rw [entriesOf_congr hsame]
      refine hlists.congr fun m => hchild m fun heq => hfp (List.append_inj' heq rfl).1
  · rw [FileTree.item_remove_below hp hT] at hne
    exact absurd rfl hne
  · by_cases hpre : p ++ [n] <+: [rootName]
    · exact FileTree.item_remove_below hp hpre
    · rw [FileTree.item_remove_of_not hp hpre]
      exact h.root

/-! ### A leaf elsewhere -/

/-- A file, or a folder with nothing in it, is at another path. -/
theorem moveLeaf (h : Represents R t) {m n : ItemName} {x : FileItem Bytes}
    (hm : t.CanMove (p ++ [m]) q n) (hx : t.item (p ++ [m]) = some x)
    (hleaf : ∀ u, u ≠ [] → t.item (p ++ [m] ++ u) = none)
    (hplain : q ++ [n] ≠ [rootName]) (herr : isErr (pathOf (q ++ [n])) = false)
    (hgone : Shows R' (pathOf (p ++ [m])) none)
    (hitem : Shows R' (pathOf (q ++ [n])) (some x))
    (hempty : x = .folder → entriesOf R' (pathOf (q ++ [n])) = [])
    (hlisting : ∀ f, t.item f = some .folder → f ≠ p ++ [m] →
      Lists (entriesOf R' (pathOf f)) (t.move (p ++ [m]) q n hm) f)
    (houtside : ∀ f, f ≠ [] → f ≠ p ++ [m] → f ≠ q ++ [n] → ∀ c, ColumnOf (pathOf f) c →
      c ≠ metaCol (pathOf p) → c ≠ metaCol (pathOf q) → R' c = R c) :
    Represents R' (t.move (p ++ [m]) q n hm) := by
  have hitems : ∀ f, (t.move (p ++ [m]) q n hm).item f = if f = q ++ [n] then some x
      else if f = p ++ [m] then none else t.item f := by
    intro f
    rw [FileTree.item_move_leaf hm hleaf, hx]
  refine h.of_changes (T := fun f => f = p ++ [m] ∨ f = q ++ [n]) (fun f hf => ?_)
    (fun f hf hT c hc hlist => ?_) (fun f _ hT => ?_) (fun f hf => ?_) (fun f _ hT hne => ?_) ?_
  · rw [hitems, if_neg fun heq => hf (Or.inr heq), if_neg fun heq => hf (Or.inl heq)]
  · exact houtside f hf (fun heq => hT (Or.inl heq)) (fun heq => hT (Or.inr heq)) c hc
      (hlist p (t.parent p m hm.live)) (hlist q hm.folder)
  · rw [hitems]
    split_ifs with h1 h2
    · rw [h1]
      exact hitem
    · rw [h2]
      exact hgone
    · exact absurd hT (by simp [h1, h2])
  · rw [hitems] at hf
    split_ifs at hf with h1 h2
    · -- a folder with nothing in it
      subst h1
      rw [hempty (Option.some.inj hf)]
      refine ⟨List.nodup_nil, fun e => iff_of_false List.not_mem_nil ?_⟩
      rintro ⟨k, -, hk⟩
      rw [FileTree.item_move_new hm [k], hleaf [k] (by simp)] at hk
      exact hk rfl
    · exact hlisting f hf h2
  · rw [hitems] at hne
    split_ifs at hne with h1 h2
    · rw [h1]
      exact herr
    · exact absurd rfl hne
    · exact absurd hT (by simp [h1, h2])
  · rw [hitems, if_neg hplain.symm]
    split_ifs
    · rfl
    · exact h.root

end Represents

end PennCloud
