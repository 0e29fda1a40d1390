import PennCloud.Frontend.Storage.Rows

/-!
# Moving a folder

A folder is renamed or moved by going through its listing: the folder gets its
columns under the new path, the old marker is turned into `DEL KV-Folder`, and
then every entry of the listing is moved in the same way. The two recursions of
the source differ in what they make of the listing – one copies it, the other
rewrites it – and in what they do with an entry that is neither file nor folder.
They are both `PennCloud.moveTree`, the recursion over what they differ in
(`PennCloud.renameFolderRec_eq`, `PennCloud.renameFolderMoveRec_eq`).

The recursion goes where the listings say, so what it touches depends on them.
A subtree is **tidy** (`PennCloud.Tidy`) when the listings in it name children of
their own folder, each once, and the lists of chunks chunks of their own file.
Moving a tidy folder changes nothing but what belongs to the old path or the new
one (`PennCloud.safeMove_moveTree`).
-/

namespace PennCloud

open Wire Calls Text

/-! ### The two recursions as one -/

/-- What the two recursions differ in. -/
structure TreeMove where
  /-- The entries that are gone through, from the old path and the text that was read. -/
  children : Bytes → Bytes → List Bytes
  /-- The listing under the new path. -/
  listing : Bytes → Bytes → Bytes → Bytes
  /-- Where an entry goes. -/
  target : Bytes → Bytes → Bytes
  /-- Whether an entry with this marker, not a folder's, is moved as a file. -/
  moves : Bytes → Bool
  /-- A file is. -/
  moves_file : moves kvFile = true
  /-- The entries are from the listing, in order. -/
  children_sublist : ∀ old text, (children old text).Sublist (splitStringStorage text)
  /-- A child goes to its name under the new path. -/
  target_child : ∀ new old l, l ≠ [] → 47 ∉ l → target new (old ++ 47 :: l) = new ++ 47 :: l
  /-- Nothing goes anywhere else. -/
  target_append : ∀ new e, ∃ t, target new e = new ++ t
  /-- An empty entry is a child without a name. -/
  target_nil : ∀ old text new, [] ∈ children old text → target new [] = new ++ [47]
  /-- The new listing has the names of the entries. -/
  listing_local : ∀ old new text e, 44 ∉ new → e ∈ children old text → afterLast 47 e ≠ [] →
    ∃ e' ∈ splitStringStorage (listing old new text),
      e' ≠ [] ∧ afterLast 47 e' = afterLast 47 e

/-- One entry. -/
def moveChild (k : TreeMove) (b : Bytes) (move : Bytes → Bytes → Handler Unit) (new e : Bytes) :
    Handler Unit := do
  let marker ← Get b e
  if marker = kvFolder then move e (k.target new e)
  else if k.moves marker then relocateFile b e (k.target new e)
  else return ()

/-- The recursion. -/
def moveTree (k : TreeMove) (b : Bytes) : ℕ → Bytes → Bytes → Handler Unit
  | 0, _, _ => Prog.fail .running
  | fuel + 1, old, new => do
    let text ← Get b (old ++ ascii "-metadata")
    let _ ← Put b new kvFolder
    let _ ← Put b (new ++ ascii "-metadata") (k.listing old new text)
    let _ ← Put b old delKvFolder
    let _ ← Delete b (old ++ ascii "-metadata")
    Prog.each (moveChild k b (moveTree k b fuel) new) (k.children old text)

/-- Renaming: the listing is copied, and all of it is gone through. -/
def TreeMove.rename : TreeMove where
  children _ text := splitStringStorage text
  listing _ _ text := text
  target new e := new ++ 47 :: afterLast 47 e
  moves _ := true
  moves_file := rfl
  children_sublist _ _ := List.Sublist.refl _
  target_child new old l _ hl := by rw [afterLast_append old hl]
  target_append new e := ⟨_, rfl⟩
  target_nil _ _ _ _ := by rw [afterLast_of_notMem List.not_mem_nil]
  listing_local _ _ _ e _ he hl := by
    refine ⟨e, he, ?_, rfl⟩
    rintro rfl
    exact hl (afterLast_of_notMem List.not_mem_nil)

/-- The entries that `renameFolderMoveRec` goes through. -/
def movedChildren (old text : Bytes) : List Bytes :=
  (splitStringStorage (if isErr text then [] else text)).filter fun s => s ≠ [] ∧ s ≠ old

theorem mem_movedChildren {old text e : Bytes} (h : e ∈ movedChildren old text) :
    isErr text = false ∧ e ∈ splitStringStorage text ∧ e ≠ [] := by
  obtain ⟨hmem, hne⟩ := List.mem_filter.mp h
  have hne' : e ≠ [] := by
    simp only [decide_eq_true_eq] at hne
    exact hne.1
  rcases herr : isErr text with _ | _
  · rw [herr, if_neg (by decide)] at hmem
    exact ⟨rfl, hmem, hne'⟩
  · rw [herr, if_pos rfl] at hmem
    have hnil : e = [] := by simpa [splitStringStorage] using hmem
    exact absurd hnil hne'

/-- Moving: the listing is rewritten, and the rest of it left where it is. -/
def TreeMove.relocate : TreeMove where
  children := movedChildren
  listing old new text := joinStorage ((movedChildren old text).map (movedChild new))
  target := movedChild
  moves marker := marker = kvFile
  moves_file := decide_eq_true rfl
  children_sublist old text := by
    rw [movedChildren]
    rcases herr : isErr text with _ | _
    · rw [if_neg (by decide)]
      exact List.filter_sublist
    · rw [if_pos rfl]
      have hnil : (splitStringStorage []).filter (fun s => s ≠ [] ∧ s ≠ old) = [] := by
        simp [splitStringStorage]
      rw [hnil]
      exact List.nil_sublist _
  target_child new old l hl hmem := by
    rw [movedChild, afterLast_append old hmem, if_neg hl]
  target_append new e := by
    rw [movedChild]
    split_ifs
    · exact ⟨[], (List.append_nil new).symm⟩
    · exact ⟨_, rfl⟩
  target_nil old text new h := absurd rfl (mem_movedChildren h).2.2
  listing_local old new text e hnew he hl := by
    have hcomma : ∀ p ∈ (movedChildren old text).map (movedChild new), 44 ∉ p := by
      intro p hp
      obtain ⟨e', he', rfl⟩ := List.mem_map.mp hp
      have he'' : 44 ∉ e' := notMem_of_mem_splitOn (mem_movedChildren he').2.1
      rw [movedChild]
      split_ifs
      · exact hnew
      · intro hmem
        rcases List.mem_append.mp hmem with hmem | hmem
        · exact hnew hmem
        · rcases List.mem_cons.mp hmem with heq | hmem
          · exact absurd heq (by decide)
          · exact he'' (mem_of_mem_afterLast hmem)
    refine ⟨movedChild new e, ?_, ?_, ?_⟩
    · exact (mem_splitOn_intercalate hcomma).mpr (Or.inl (List.mem_map_of_mem he))
    · rw [movedChild, if_neg hl]
      simp
    · rw [movedChild, if_neg hl, afterLast_append new (notMem_afterLast 47 e)]

theorem renameFolderRec_eq (b : Bytes) (fuel : ℕ) :
    renameFolderRec b fuel = moveTree .rename b fuel := by
  induction fuel with
  | zero =>
    funext old new
    rfl
  | succ fuel ih =>
    funext old new
    rw [renameFolderRec, moveTree, ih]
    rfl

theorem renameFolderMoveRec_eq (b : Bytes) (fuel : ℕ) :
    renameFolderMoveRec b fuel = moveTree .relocate b fuel := by
  induction fuel with
  | zero =>
    funext old new
    rfl
  | succ fuel ih =>
    funext old new
    have hchild : ∀ move, moveChild .relocate b move new = fun childOld => (do
        let marker ← Get b childOld
        if marker = kvFolder then move childOld (movedChild new childOld)
        else if marker = kvFile then relocateFile b childOld (movedChild new childOld)
        else return ()) := by
      intro move
      funext childOld
      simp only [moveChild, TreeMove.relocate, decide_eq_true_eq]
    rw [renameFolderMoveRec, moveTree, ih, hchild]
    rfl

/-! ### Tidy subtrees -/

/-- The listing of a folder names its children, each once. -/
def OwnListing (R : Row) (q : Bytes) : Prop :=
  ∃ v, R (q ++ ascii "-metadata") = some v ∧
    (∀ e ∈ splitStringStorage v, e = [] ∨ ∃ l, isValidName l = true ∧ e = q ++ 47 :: l) ∧
    ((splitStringStorage v).filter fun e => e ≠ []).Nodup

/-- **A tidy subtree**: every folder in it has a listing of its own children, and
everything else, if it has a list of chunks, a list of its own. -/
def Tidy (R : Row) (a : Bytes) : Prop :=
  ∀ q, IsPath q → Under a q →
    (R q = some kvFolder → OwnListing R q) ∧ (R q ≠ some kvFolder → OwnChunks R q)

theorem Tidy.below {R : Row} {a a' : Bytes} (h : Tidy R a) (ha : Under a a') : Tidy R a' :=
  fun q hq hu => h q hq (ha.trans hu)

/-- Being tidy is about what belongs to the item. -/
theorem Tidy.congr {R R' : Row} {a : Bytes} (h : Tidy R a) (heq : ∀ c, Under a c → R' c = R c) :
    Tidy R' a := by
  intro q hq hu
  rw [OwnListing, OwnChunks, heq q hu, heq _ (hu.trans (under_metadata q))]
  exact h q hq hu

/-- What is not below an item and not above it. -/
def Apart (a a' : Bytes) : Prop := ¬Under a a' ∧ ¬Under a' a

/-- Items that are apart have no column in common. -/
theorem Apart.not_under {a a' c : Bytes} (h : Apart a a') (hc : Under a c) : ¬Under a' c :=
  fun hc' => (hc.comparable hc').elim h.1 h.2

theorem Apart.below {a a' c c' : Bytes} (h : Apart a a') (hc : Under a c) (hc' : Under a' c') :
    Apart c c' :=
  ⟨fun hu => h.not_under (hc.trans hu) hc', fun hu => h.not_under hc (hc'.trans hu)⟩

/-- Different children of a folder are apart. -/
theorem Apart.children {a l l' : Bytes} (hl : isValidName l = true) (hl' : isValidName l' = true)
    (hne : l ≠ l') : Apart (a ++ 47 :: l) (a ++ 47 :: l') :=
  ⟨not_under_sibling hl' hne, not_under_sibling hl (Ne.symm hne)⟩

/-! ### What a tidy folder that is moved leaves alone -/

section Frame

variable {k : TreeMove} {b : Bytes} {master : Master}

/-- The row of a run, outside of two items. -/
def KeepsOutside (old new : Bytes) (R R' : Row) : Prop :=
  ∀ c, ¬Under old c → ¬Under new c → R' c = R c

/-- The entries still to come of a folder that is moved. -/
structure Remaining (k : TreeMove) (old new : Bytes) (R : Row) (cs : List Bytes) : Prop where
  /-- They are children of the folder. -/
  own : ∀ e ∈ cs, e = [] ∨ ∃ l, isValidName l = true ∧ e = old ++ 47 :: l
  /-- Each comes once. -/
  nodup : (cs.filter fun e => e ≠ []).Nodup
  /-- They are tidy. -/
  tidy : ∀ e ∈ cs, e ≠ [] → Tidy R e
  /-- An empty entry goes nowhere else. -/
  target_nil : [] ∈ cs → k.target new [] = new ++ [47]

/-- The entries of a tidy folder, once its own columns are moved. -/
theorem remaining_of_tidy {old new : Bytes} {R R' : Row} {text : Bytes} (hold : IsPath old)
    (htidy : Tidy R old) (hfolder : R old = some kvFolder)
    (htext : R (old ++ ascii "-metadata") = some text)
    (hR : ∀ l c, isValidName l = true → Under (old ++ 47 :: l) c → R' c = R c) :
    Remaining k old new R' (k.children old text) := by
  obtain ⟨v, hv, hown, hnodup⟩ := (htidy old hold (Under.refl old)).1 hfolder
  obtain rfl : v = text := Option.some.inj (hv.symm.trans htext)
  have hsub := k.children_sublist old v
  refine ⟨fun e he => hown e (hsub.subset he), hnodup.sublist (hsub.filter _), ?_,
    k.target_nil old v new⟩
  intro e he hne
  obtain rfl | ⟨l, hl, rfl⟩ := hown e (hsub.subset he)
  · exact absurd rfl hne
  · exact (htidy.below (under_slash old l)).congr fun c hc => hR l c hl hc

/-- One entry less: the others are as tidy as before when nothing of theirs has
changed. -/
theorem Remaining.tail {old new : Bytes} {R R' : Row} {e : Bytes} {cs : List Bytes}
    (h : Remaining k old new R (e :: cs))
    (hR : ∀ l c, isValidName l = true → e ≠ old ++ 47 :: l → Under (old ++ 47 :: l) c →
      R' c = R c) : Remaining k old new R' cs := by
  refine ⟨fun e' he' => h.own e' (List.mem_cons_of_mem e he'), ?_, ?_,
    fun hnil => h.target_nil (List.mem_cons_of_mem e hnil)⟩
  · exact h.nodup.sublist ((List.sublist_cons_self e cs).filter _)
  · intro e' he' hne
    obtain rfl | ⟨l, hl, rfl⟩ := h.own e' (List.mem_cons_of_mem e he')
    · exact absurd rfl hne
    · have hee : e ≠ old ++ 47 :: l := by
        rintro rfl
        have hnodup := h.nodup
        rw [List.filter_cons, if_pos (by simp)] at hnodup
        exact (List.nodup_cons.mp hnodup).1 (List.mem_filter.mpr ⟨he', by simp⟩)
      exact (h.tidy _ (List.mem_cons_of_mem e he') hne).congr fun c hc => hR l c hl hee hc

/-- The same, when the entry that was moved is a child. -/
theorem Remaining.tail_of_keeps {old new l : Bytes} {R R' : Row} {cs : List Bytes}
    (happart : Apart old new) (hl : isValidName l = true)
    (h : Remaining k old new R ((old ++ 47 :: l) :: cs))
    (hR : KeepsOutside (old ++ 47 :: l) (new ++ 47 :: l) R R') : Remaining k old new R' cs := by
  refine h.tail fun l' c hl' hne hc => hR c ?_ ?_
  · exact (Apart.children hl' hl fun heq => hne (by rw [heq])).not_under hc
  · exact fun hu => happart.not_under ((under_slash old l').trans hc) ((under_slash new l).trans hu)

/-- What an empty entry does: nothing outside of the new folder. -/
theorem moveChild_nil {old new : Bytes} {kvs : Tablet} {move : Bytes → Bytes → Handler Unit}
    {cs : List Bytes} (hblank : Blank (kvs.row b))
    (h : Remaining k old new (kvs.row b) ([] :: cs)) :
    ∀ c, ¬Under (new ++ [47]) c →
      ((moveChild k b move new []).run (Call.exec master) kvs).2.row b c = kvs.row b c := by
  intro c hc
  have herr := (Tablet.notFound_of_row (hblank [] (Or.inl rfl))).isErr
  have hmarker : kvs.text b [] ≠ kvFolder := by
    intro heq
    rw [heq, isErr_kvFolder] at herr
    exact absurd herr (by decide)
  rw [moveChild, run_Get_bind, if_neg hmarker]
  split_ifs
  · rw [h.target_nil List.mem_cons_self]
    obtain ⟨v, hrow⟩ := relocateFile_nil_row master hblank (new ++ [47])
    have hne : c ≠ new ++ [47] := fun heq => hc (heq ▸ Under.refl _)
    have hne' : c ≠ new ++ [47] ++ ascii "-content" := fun heq => hc (heq ▸ under_content _)
    rw [hrow]
    by_cases hc1 : c = []
    · rw [hc1, Function.update_self, hblank [] (Or.inl rfl)]
    · rw [Function.update_of_ne hc1, Function.update_of_ne hne]
      by_cases hc2 : c = ascii "-content"
      · rw [hc2, Function.update_self, hblank _ (Or.inr (Or.inr rfl))]
      · rw [Function.update_of_ne hc2, Function.update_of_ne hne']
  · rfl

/-- A way to move folders that keeps to the old path and the new one. -/
def SafeMove (b : Bytes) (master : Master) (move : Bytes → Bytes → Handler Unit) : Prop :=
  ∀ {old new : Bytes}, IsPath old → IsPath new → Apart old new → ∀ {kvs : Tablet},
    Blank (kvs.row b) → kvs.row b old = some kvFolder → Tidy (kvs.row b) old →
      KeepsOutside old new (kvs.row b) (((move old new).run (Call.exec master) kvs).2.row b)

variable {move : Bytes → Bytes → Handler Unit}

/-- An entry that is moved keeps to its own old path and new path. -/
theorem SafeMove.moveChild (hmove : SafeMove b master move) {old new l : Bytes} (hold : IsPath old)
    (hnew : IsPath new) (happart : Apart old new) (hl : isValidName l = true) {kvs : Tablet}
    (hblank : Blank (kvs.row b)) (htidy : Tidy (kvs.row b) (old ++ 47 :: l)) :
    KeepsOutside (old ++ 47 :: l) (new ++ 47 :: l) (kvs.row b)
      (((moveChild k b move new (old ++ 47 :: l)).run (Call.exec master) kvs).2.row b) := by
  rw [PennCloud.moveChild, run_Get_bind,
    k.target_child new old l (isValidName_ne_nil hl) (notMem_of_isValidName hl)]
  split_ifs with hm hmoves
  · exact hmove (hold.append hl) (hnew.append hl)
      (happart.below (under_slash old l) (under_slash new l)) hblank
      ((Tablet.text_eq_iff isErr_kvFolder).mp hm) htidy
  · have hf : kvs.row b (old ++ 47 :: l) ≠ some kvFolder :=
      fun h => hm ((Tablet.text_eq_iff isErr_kvFolder).mpr h)
    have hown := (htidy _ (hold.append hl) (Under.refl _)).2 hf
    exact fun c hc hc' => relocateFile_row_eq master hown (fun h => hc h.under) fun h => hc' h.under
  · exact fun _ _ _ => rfl

/-- Something below an item. -/
def Below (a c : Bytes) : Prop := ∃ t, c = a ++ 47 :: t

theorem Under.below {a l c : Bytes} (h : Under (a ++ 47 :: l) c) : Below a c := by
  obtain ⟨t, rfl, -⟩ := h
  exact ⟨l ++ t, by simp⟩

theorem Below.under {a c : Bytes} (h : Below a c) : Under a c := by
  obtain ⟨t, rfl⟩ := h
  exact under_slash a t

/-- A column of an item is not below it. -/
theorem ColumnOf.not_below {a c : Bytes} (h : ColumnOf a c) : ¬Below a c := by
  rintro ⟨t, rfl⟩
  obtain ⟨s, heq, hs⟩ := h
  have hs' : s = 47 :: t := by simpa using heq.symm
  exact absurd (hs 47 (by rw [hs']; rfl)) (by decide)

/-- What the entries that were moved leave alone: everything that is not below one
of the two folders. -/
structure Moved (k : TreeMove) (old new : Bytes) (R : Row) (cs : List Bytes) (R' : Row) : Prop where
  /-- What is not below is as before. -/
  keeps : ∀ c, ¬Below old c → ¬Below new c → R' c = R c
  /-- The others can still be moved. -/
  remaining : Remaining k old new R' cs

/-- One entry more. -/
theorem Moved.step (hmove : SafeMove b master move) {old new : Bytes} (hold : IsPath old)
    (hnew : IsPath new) (happart : Apart old new) {R : Row} (hblank : Blank R) {kvs : Tablet}
    {e : Bytes} {cs : List Bytes} (h : Moved k old new R (e :: cs) (kvs.row b)) :
    Moved k old new R cs
      (((moveChild k b move new e).run (Call.exec master) kvs).2.row b) := by
  have hblank' : Blank (kvs.row b) := hblank.of_row_eq fun c hc => h.keeps c
    (fun hb => hold.not_under_blank hc hb.under) fun hb => hnew.not_under_blank hc hb.under
  obtain rfl | ⟨l, hl, rfl⟩ := h.remaining.own e List.mem_cons_self
  · have hnil := @moveChild_nil _ b master _ _ _ move _ hblank' h.remaining
    refine ⟨fun c hc hc' => (hnil c fun hu => hc' hu.below).trans (h.keeps c hc hc'), ?_⟩
    refine h.remaining.tail fun l c hl _ hc => hnil c fun hu => ?_
    exact happart.not_under hc.below.under hu.below.under
  · have hchild := hmove.moveChild (k := k) hold hnew happart hl hblank'
      (h.remaining.tidy _ List.mem_cons_self (by simp))
    exact ⟨fun c hc hc' => (hchild c (fun hu => hc hu.below) fun hu => hc' hu.below).trans
      (h.keeps c hc hc'), h.remaining.tail_of_keeps happart hl hchild⟩

/-- The row once the columns of the folder itself are moved. -/
def opened (R : Row) (old new listing : Bytes) : Row :=
  Function.update (Function.update (Function.update (Function.update R new (some kvFolder))
    (new ++ ascii "-metadata") (some listing)) old (some delKvFolder))
    (old ++ ascii "-metadata") none

/-- They are all that has changed. -/
theorem opened_of_ne {R : Row} {old new listing c : Bytes} (h1 : c ≠ new)
    (h2 : c ≠ new ++ ascii "-metadata") (h3 : c ≠ old) (h4 : c ≠ old ++ ascii "-metadata") :
    opened R old new listing c = R c := by
  rw [opened, Function.update_of_ne h4, Function.update_of_ne h3, Function.update_of_ne h2,
    Function.update_of_ne h1]

theorem opened_new {R : Row} {old new : Bytes} (happart : Apart old new) (listing : Bytes) :
    opened R old new listing new = some kvFolder := by
  have h1 : new ≠ old ++ ascii "-metadata" := fun h => happart.1 (h ▸ under_metadata old)
  have h2 : new ≠ old := fun h => happart.1 (h ▸ Under.refl old)
  have h3 : new ≠ new ++ ascii "-metadata" := fun h =>
    absurd (List.append_right_eq_self.mp h.symm) (by decide)
  rw [opened, Function.update_of_ne h1, Function.update_of_ne h2, Function.update_of_ne h3,
    Function.update_self]

theorem opened_self {R : Row} {old new listing : Bytes} :
    opened R old new listing old = some delKvFolder := by
  have hne : old ≠ old ++ ascii "-metadata" := fun heq =>
    absurd (List.append_right_eq_self.mp heq.symm) (by decide)
  rw [opened, Function.update_of_ne hne, Function.update_self]

theorem opened_listing {R : Row} {old new listing : Bytes} (happart : Apart old new) :
    opened R old new listing (new ++ ascii "-metadata") = some listing := by
  have h1 : new ++ ascii "-metadata" ≠ old ++ ascii "-metadata" := fun heq =>
    happart.1 (List.append_cancel_right heq ▸ Under.refl _)
  have h2 : new ++ ascii "-metadata" ≠ old := fun heq => happart.2 (heq ▸ under_metadata new)
  rw [opened, Function.update_of_ne h1, Function.update_of_ne h2, Function.update_self]

/-- What belongs to a child is not changed yet. -/
theorem opened_old {R : Row} {old new listing l c : Bytes} (happart : Apart old new)
    (hu : Under (old ++ 47 :: l) c) : opened R old new listing c = R c := by
  have hcnew : ¬Under new c := happart.not_under hu.below.under
  exact opened_of_ne (ne_of_not_under hcnew (Under.refl new))
    (ne_of_not_under hcnew (under_metadata new)) (ne_of_under hu not_under_child_self)
    (ne_of_under hu (not_under_child (by decide)))

theorem opened_below_new {R : Row} {old new listing l c : Bytes} (happart : Apart old new)
    (hu : Under (new ++ 47 :: l) c) : opened R old new listing c = R c := by
  have hcold : ¬Under old c := fun hu' => happart.not_under hu' hu.below.under
  exact opened_of_ne (ne_of_under hu not_under_child_self)
    (ne_of_under hu (not_under_child (by decide))) (ne_of_not_under hcold (Under.refl old))
    (ne_of_not_under hcold (under_metadata old))

theorem Blank.opened {R : Row} {old new : Bytes} (h : Blank R) (hold : IsPath old)
    (hnew : IsPath new) (listing : Bytes) : Blank (opened R old new listing) := by
  refine h.of_row_eq fun c hc => opened_of_ne ?_ ?_ ?_ ?_
  · exact ne_of_not_under (hnew.not_under_blank hc) (Under.refl new)
  · exact ne_of_not_under (hnew.not_under_blank hc) (under_metadata new)
  · exact ne_of_not_under (hold.not_under_blank hc) (Under.refl old)
  · exact ne_of_not_under (hold.not_under_blank hc) (under_metadata old)

/-- The beginning of the recursion, and then the loop. -/
theorem run_moveTree (fuel : ℕ) {old new text : Bytes} {kvs : Tablet}
    (htext : kvs.text b (old ++ ascii "-metadata") = text) :
    ∃ s : Tablet, s.row b = opened (kvs.row b) old new (k.listing old new text) ∧
      (moveTree k b (fuel + 1) old new).run (Call.exec master) kvs =
        (Prog.each (moveChild k b (moveTree k b fuel) new) (k.children old text)).run
          (Call.exec master) s := by
  subst htext
  rw [moveTree]
  simp only [run_Get_bind, run_Put_bind, run_Delete_bind]
  refine ⟨_, ?_, rfl⟩
  simp only [Tablet.row_put, Tablet.row_delete, opened]

/-- The entries of a tidy folder are ready to be moved. -/
theorem moved_opened {old new text : Bytes} (hold : IsPath old) (happart : Apart old new) {R : Row}
    (hfolder : R old = some kvFolder) (htidy : Tidy R old)
    (htext : R (old ++ ascii "-metadata") = some text) (listing : Bytes) :
    Moved k old new (opened R old new listing) (k.children old text)
      (opened R old new listing) := by
  exact ⟨fun _ _ _ => rfl, remaining_of_tidy hold htidy hfolder htext fun l c _ hc =>
    opened_old happart hc⟩

/-- One level of the recursion: what is not below one of the two folders is as it was
when their own columns had been moved. -/
theorem keeps_moveTree {fuel : ℕ} (hmove : SafeMove b master (moveTree k b fuel)) {old new : Bytes}
    (hold : IsPath old) (hnew : IsPath new) (happart : Apart old new) {kvs : Tablet}
    (hblank : Blank (kvs.row b)) (hfolder : kvs.row b old = some kvFolder)
    (htidy : Tidy (kvs.row b) old) :
    ∃ text, kvs.row b (old ++ ascii "-metadata") = some text ∧
      ∀ c, ¬Below old c → ¬Below new c →
        ((moveTree k b (fuel + 1) old new).run (Call.exec master) kvs).2.row b c =
          opened (kvs.row b) old new (k.listing old new text) c := by
  obtain ⟨text, htext, -⟩ := (htidy old hold (Under.refl old)).1 hfolder
  obtain ⟨s, hs, hrun⟩ := @run_moveTree k b master fuel old new text kvs
    (Tablet.text_of_row htext)
  have hblank' : Blank (s.row b) := hs ▸ hblank.opened hold hnew _
  -- the loop keeps what is not below the two folders
  obtain ⟨cs, hcs⟩ := Prog.each_inv (Call.exec master)
    (I := fun cs t => Moved k old new (s.row b) cs (t.row b))
    (fun e cs t h => h.step hmove hold hnew happart hblank')
    (hs ▸ moved_opened hold happart hfolder htidy htext _ : Moved k old new (s.row b)
      (k.children old text) (s.row b))
  refine ⟨text, htext, fun c hc hc' => ?_⟩
  rw [hrun, hcs.keeps c hc hc', hs]

/-- **A tidy folder that is moved** changes nothing but what belongs to its old path
or to its new one, whether or not it comes to an end. -/
theorem safeMove_moveTree (fuel : ℕ) : SafeMove b master (moveTree k b fuel) := by
  induction fuel with
  | zero => exact fun _ _ _ _ _ _ _ _ _ _ => rfl
  | succ fuel ih =>
    intro old new hold hnew happart kvs hblank hfolder htidy c hc hc'
    obtain ⟨text, -, hkeeps⟩ := keeps_moveTree ih hold hnew happart hblank hfolder htidy
    rw [hkeeps c (fun hb => hc hb.under) fun hb => hc' hb.under]
    exact opened_of_ne (ne_of_not_under hc' (Under.refl new))
      (ne_of_not_under hc' (under_metadata new)) (ne_of_not_under hc (Under.refl old))
      (ne_of_not_under hc (under_metadata old))

/-- The folder is then at its new path. -/
theorem moveTree_new {fuel : ℕ} {old new : Bytes} (hold : IsPath old) (hnew : IsPath new)
    (happart : Apart old new) {kvs t : Tablet} (hblank : Blank (kvs.row b))
    (hfolder : kvs.row b old = some kvFolder) (htidy : Tidy (kvs.row b) old)
    (h : (moveTree k b fuel old new).run (Call.exec master) kvs = (.ok (), t)) :
    t.row b new = some kvFolder := by
  rcases fuel with _ | fuel
  · exact absurd (Prod.mk.inj h).1 (by simp)
  · obtain ⟨text, -, hkeeps⟩ := keeps_moveTree (k := k) (safeMove_moveTree fuel) hold hnew happart
      hblank hfolder htidy
    have hrow := hkeeps new (fun hb => happart.1 hb.under) (ColumnOf.refl new).not_below
    rw [h, opened_new happart] at hrow
    exact hrow

/-- Moving a folder keeps the empty path empty. -/
theorem KeepsBlank.moveTree (fuel : ℕ) {old new : Bytes} (hold : ¬IsBlank old) (hnew : Rooted new) :
    KeepsBlank b master (moveTree k b fuel old new) := by
  induction fuel generalizing old new with
  | zero => exact KeepsBlank.fail _
  | succ fuel ih =>
    rw [PennCloud.moveTree]
    refine get fun text => put hnew.not_isBlank fun _ => put (hnew.append _).not_isBlank fun _ =>
      put hold fun _ => delete fun _ => each (fun e => ?_) _
    obtain ⟨t, ht⟩ := k.target_append new e
    have htarget : Rooted (k.target new e) := ht ▸ hnew.append t
    rw [moveChild]
    intro kvs h
    rw [run_Get_bind]
    split_ifs with hm hmoves
    · refine ih (fun hc => ?_) htarget kvs h
      have hrow := (Tablet.text_eq_iff isErr_kvFolder).mp hm
      exact absurd (hrow.symm.trans (h e hc)) (by simp)
    · exact KeepsBlank.relocateFile e htarget kvs h
    · exact h

end Frame

end PennCloud
