import PennCloud.Lib.Runs
import PennCloud.Frontend.Storage.Trees

/-!
# Requests one after another

The requests of one user are worked on one after another, and a row is **reached**
when some sequence of requests leads to it from a store without that row
(`PennCloud.StorageRequest.step`). The paths of a request are made of valid names;
nothing else is asked of it, and a request may also be stopped on the way.

What the two loops that look for a free path find is said here
(`PennCloud.run_freeUpload`, `PennCloud.run_freeTarget`), and the one thing that is
true of every row that is reached: nothing is kept under an empty path
(`PennCloud.blank_of_reaches`), although the entries of a listing that are gone
through may be empty.
-/

namespace PennCloud

open Wire Calls Text

/-! ### Paths -/

theorem beforeLast_inFolder {folder n : Bytes} (hn : isValidName n = true) :
    beforeLast 47 (inFolder folder n) = folder := by
  rw [inFolder]
  split_ifs with h
  · rw [h, beforeLast_of_notMem (notMem_of_isValidName hn)]
  · exact beforeLast_append folder (notMem_of_isValidName hn)

theorem afterLast_inFolder {folder n : Bytes} (hn : isValidName n = true) :
    afterLast 47 (inFolder folder n) = n := by
  rw [inFolder]
  split_ifs
  · exact afterLast_of_notMem (notMem_of_isValidName hn)
  · exact afterLast_append folder (notMem_of_isValidName hn)

/-- A path is a name in a folder. -/
theorem IsPath.exists_inFolder {p : Bytes} (h : IsPath p) :
    ∃ folder n, IsFolderPath folder ∧ isValidName n = true ∧ p = PennCloud.inFolder folder n := by
  by_cases hslash : 47 ∈ p
  · have heq := beforeLast_append_afterLast hslash
    have hsplit : p.splitOn 47 = (beforeLast 47 p).splitOn 47 ++ [afterLast 47 p] := by
      rw [← heq, List.splitOn_append_cons_self, beforeLast_append _ (notMem_afterLast 47 p),
        afterLast_append _ (notMem_afterLast 47 p),
        List.splitOn_eq_singleton (notMem_afterLast 47 p)]
    have hfolder : IsPath (beforeLast 47 p) := fun n hn =>
      h n (hsplit ▸ List.mem_append_left _ hn)
    refine ⟨beforeLast 47 p, afterLast 47 p, Or.inr hfolder,
      h _ (hsplit ▸ List.mem_append_right _ List.mem_cons_self), ?_⟩
    rw [PennCloud.inFolder, if_neg hfolder.ne_nil, heq]
  · refine ⟨[], p, Or.inl rfl, h p ?_, rfl⟩
    rw [List.splitOn_eq_singleton hslash]
    exact List.mem_cons_self

theorem inFolder_nil (n : Bytes) : inFolder [] n = n := rfl

theorem IsPath.inFolder_eq {folder : Bytes} (h : IsPath folder) (n : Bytes) :
    PennCloud.inFolder folder n = folder ++ 47 :: n := if_neg h.ne_nil

/-- **Induction along a path**: from the folder to a name in it. -/
theorem IsPath.induction {P : Bytes → Prop}
    (h : ∀ folder n, IsFolderPath folder → isValidName n = true → (IsPath folder → P folder) →
      P (PennCloud.inFolder folder n)) {p : Bytes} (hp : IsPath p) : P p := by
  obtain ⟨folder, n, hfolder, hn, heq⟩ := hp.exists_inFolder
  have hpath : IsPath folder → P folder := fun hf => IsPath.induction h hf
  rw [heq]
  exact h folder n hfolder hn hpath
termination_by p.length
decreasing_by
  rw [heq, hf.inFolder_eq, List.length_append, List.length_cons]
  omega

/-- Different names in a folder are apart. -/
theorem not_under_inFolder {folder l l' : Bytes} (hl' : isValidName l' = true) (hne : l ≠ l') :
    ¬Under (inFolder folder l) (inFolder folder l') := by
  rw [inFolder, inFolder]
  split_ifs
  · rintro ⟨t, heq, ht⟩
    rcases t with _ | ⟨x, t⟩
    · exact hne (by simpa using heq.symm)
    · have hmem : x ∈ l' := heq ▸ List.mem_append_right l List.mem_cons_self
      rcases ht x rfl with rfl | rfl
      · exact notMem_of_isValidName hl' hmem
      · exact (IsPath.of_isValidName hl').notMem_dash hmem
  · exact not_under_sibling hl' hne

/-- The listing of a folder belongs to none of its children, an item `metadata` at
the root apart. -/
theorem not_under_metaCol {folder n : Bytes} (hne : folder = [] → n ≠ ascii "metadata") :
    ¬Under (inFolder folder n) (metaCol folder) := by
  rw [inFolder, metaCol]
  split_ifs with h
  · rintro ⟨t, heq, ht⟩
    rcases t with _ | ⟨x, t⟩
    · exact hne h (by simpa using heq.symm)
    · have hmem : x ∈ ascii "metadata" := heq ▸ List.mem_append_right n List.mem_cons_self
      rcases ht x rfl with rfl | rfl <;> exact absurd hmem (by decide)
  · exact not_under_child (by decide)

theorem IsPath.under_inFolder {folder : Bytes} (h : IsPath folder) (n : Bytes) :
    Under folder (PennCloud.inFolder folder n) := by
  rw [h.inFolder_eq]
  exact under_slash folder n

theorem not_under_inFolder_self {folder n : Bytes} (hn : n ≠ []) :
    ¬Under (inFolder folder n) folder := by
  rw [inFolder]
  split_ifs with h
  · rintro ⟨t, heq, -⟩
    rw [h] at heq
    exact hn (List.append_eq_nil_iff.mp heq.symm).1
  · exact not_under_child_self

/-- What is above a name in a folder is the item itself, or is above the folder. -/
theorem under_inFolder {a folder n : Bytes} (hfolder : IsFolderPath folder)
    (hn : isValidName n = true) (h : Under a (inFolder folder n)) :
    inFolder folder n = a ∨ (IsPath folder ∧ Under a folder) := by
  rcases h.eq_or_slash (IsPath.inFolder hfolder hn) with heq | ⟨t, heq⟩
  · exact Or.inl heq
  · right
    have hslash := notMem_of_isValidName hn
    rcases hfolder with rfl | hfolder
    · rw [inFolder_nil] at heq
      exact absurd (heq ▸ List.mem_append_right a List.mem_cons_self) hslash
    · refine ⟨hfolder, ?_⟩
      rw [hfolder.inFolder_eq] at heq
      rcases List.append_eq_append_iff.mp heq with ⟨s, rfl, hs⟩ | ⟨s, rfl, hs⟩
      · rcases s with _ | ⟨x, s⟩
        · rw [List.append_nil]
          exact Under.refl folder
        · obtain ⟨-, rfl⟩ := List.cons.inj hs
          exact absurd (List.mem_append_right s List.mem_cons_self) hslash
      · rcases s with _ | ⟨x, s⟩
        · rw [List.append_nil]
          exact Under.refl a
        · obtain ⟨rfl, -⟩ := List.cons.inj hs
          exact under_slash a s

/-- What a listing belongs to: what is above the folder, or an item `metadata` at the
root. -/
theorem under_metaCol {a folder : Bytes} (ha : IsPath a) (hfolder : IsFolderPath folder)
    (h : Under a (metaCol folder)) :
    (IsPath folder ∧ Under a folder) ∨ (folder = [] ∧ a = ascii "metadata") := by
  rw [metaCol] at h
  rcases hfolder with rfl | hfolder
  · rw [if_pos rfl] at h
    obtain ⟨t, heq, ht⟩ := h
    rcases t with _ | ⟨x, t⟩
    · exact Or.inr ⟨rfl, by simpa using heq.symm⟩
    · have hmem : x ∈ ascii "metadata" := heq ▸ List.mem_append_right a List.mem_cons_self
      rcases ht x rfl with rfl | rfl <;> exact absurd hmem (by decide)
  · rw [if_neg hfolder.ne_nil] at h
    exact Or.inl ⟨hfolder, (columnOf_metadata folder).under_iff ha.notMem_dash h⟩

/-! ### Names made from names -/

/-- What a number in parentheses is made of. -/
theorem isNameChar_of_mem_parenthesized {i : ℕ} {x : UInt8} (h : x ∈ parenthesized i) :
    isNameChar x = true := by
  rw [parenthesized, List.mem_append, List.mem_append] at h
  rcases h with (h | h) | h
  · obtain rfl : x = 40 := by simpa [ascii] using h
    decide
  · obtain ⟨hlo, hhi⟩ := isDigit_of_mem_decimal h
    have hlo' : (48 : UInt8) ≤ x := UInt8.le_iff_toNat_le.mpr hlo
    have hhi' : x ≤ 57 := UInt8.le_iff_toNat_le.mpr hhi
    simp [isNameChar, hlo', hhi']
  · obtain rfl : x = 41 := by simpa [ascii] using h
    decide

theorem isSegment_numbered {s : Bytes} (h : isSegment s = true) (i : ℕ) :
    isSegment (s ++ parenthesized i) = true := by
  obtain ⟨hne, hall⟩ := isSegment_iff.mp h
  refine isSegment_iff.mpr ⟨by simp [hne], fun x hx => ?_⟩
  exact (List.mem_append.mp hx).elim (hall x) isNameChar_of_mem_parenthesized

/-- The number goes before the first dot. -/
theorem variantPath_append {a : Bytes} (ha : 46 ∉ a) (t : Bytes) (i : ℕ) :
    variantPath (a ++ 46 :: t) i = a ++ parenthesized i ++ 46 :: t := by
  have hpos : ∀ x ∈ a, (decide (x ≠ 46)) = true := fun x hx =>
    decide_eq_true fun heq => ha (heq ▸ hx)
  rw [variantPath, List.takeWhile_append_of_pos hpos, List.dropWhile_append_of_pos hpos,
    List.takeWhile_cons_of_neg (by simp), List.dropWhile_cons_of_neg (by simp), List.append_nil]

/-- A name with a number before its dot is a name. -/
theorem isValidName_variantPath {n : Bytes} (hn : isValidName n = true) (hdot : 46 ∈ n) (i : ℕ) :
    isValidName (variantPath n i) = true := by
  rcases isValidName_iff.mp hn with h | ⟨a, c, rfl, ha, hc⟩
  · exact absurd hdot (notMem_of_isSegment h)
  · rw [variantPath_append (notMem_of_isSegment ha)]
    exact isValidName_iff.mpr (Or.inr ⟨_, c, rfl, isSegment_numbered ha i, hc⟩)

/-- The name of a file that is moved, with a number. -/
theorem isValidName_leaf {n : Bytes} (hn : isValidName n = true) (i : ℕ) :
    isValidName (leafBase n ++ parenthesized i ++ leafExt n) = true := by
  rcases isValidName_iff.mp hn with h | ⟨a, c, rfl, ha, hc⟩
  · have hdot := notMem_of_isSegment h
    rw [leafBase, leafExt, if_neg hdot, if_neg hdot, List.append_nil]
    exact isValidName_iff.mpr (Or.inl (isSegment_numbered h i))
  · have hdot : 46 ∈ a ++ 46 :: c := List.mem_append_right a List.mem_cons_self
    rw [leafBase, leafExt, if_pos hdot, if_pos hdot, beforeLast_append a (notMem_of_isSegment hc),
      afterLast_append a (notMem_of_isSegment hc)]
    exact isValidName_iff.mpr (Or.inr ⟨_, c, rfl, isSegment_numbered ha i, hc⟩)

theorem extension_of_notMem {n : Bytes} (h : 46 ∉ n) : extension n = [] :=
  if_neg fun hand => h hand.1

theorem extension_append {a c : Bytes} (hc : isSegment c = true) :
    extension (a ++ 46 :: c) = 46 :: c := by
  have hlast := afterLast_append a (notMem_of_isSegment hc)
  rw [extension, hlast, if_pos ⟨List.mem_append_right a List.mem_cons_self,
    (isSegment_iff.mp hc).1⟩]

/-- The new name of a file with the extension of the old one is a name. -/
theorem isValidName_ensureSameExtension {o n : Bytes} (ho : isValidName o = true)
    (hn : isValidName n = true) : isValidName (ensureSameExtension o n) = true := by
  rw [ensureSameExtension]
  rcases isValidName_iff.mp ho with ho | ⟨a, c, rfl, ha, hc⟩
  · rw [if_pos (extension_of_notMem (notMem_of_isSegment ho))]
    split_ifs with hdot
    · rcases isValidName_iff.mp hn with hn | ⟨a, c, rfl, ha, hc⟩
      · exact absurd hdot (notMem_of_isSegment hn)
      · rw [beforeLast_append a (notMem_of_isSegment hc)]
        exact isValidName_iff.mpr (Or.inl ha)
    · exact hn
  · rw [extension_append hc, if_neg (by simp)]
    rcases isValidName_iff.mp hn with hn | ⟨a', c', rfl, ha', hc'⟩
    · rw [extension_of_notMem (notMem_of_isSegment hn), if_neg (by simp)]
      exact isValidName_iff.mpr (Or.inr ⟨n, c, rfl, hn, hc⟩)
    · rw [extension_append hc', if_pos (by simp), beforeLast_append a' (notMem_of_isSegment hc')]
      exact isValidName_iff.mpr (Or.inr ⟨a', c, rfl, ha', hc⟩)

theorem dot_mem_of_inFolder {folder n : Bytes} (hx : 46 ∉ folder) (h : 46 ∈ inFolder folder n) :
    46 ∈ n := by
  rw [inFolder] at h
  split_ifs at h
  · exact h
  · rcases List.mem_append.mp h with h | h
    · exact absurd h hx
    · exact (List.mem_cons.mp h).resolve_left (by decide)

/-- The path of a variant is a name in the same folder when the folder has no dot. -/
theorem variantPath_inFolder {folder n : Bytes} (hdot : 46 ∉ folder) (i : ℕ) :
    variantPath (inFolder folder n) i = inFolder folder (variantPath n i) := by
  rw [inFolder, inFolder]
  split_ifs
  · rfl
  · have htake : ∀ t : Bytes, (folder ++ 47 :: t).takeWhile (· ≠ 46) =
        folder ++ 47 :: t.takeWhile (· ≠ 46) := by
      intro t
      rw [List.takeWhile_append_of_pos]
      · rfl
      · intro x hx
        simpa using fun heq : x = 46 => hdot (heq ▸ hx)
    have hdrop : ∀ t : Bytes, (folder ++ 47 :: t).dropWhile (· ≠ 46) = t.dropWhile (· ≠ 46) := by
      intro t
      rw [List.dropWhile_append_of_pos]
      · rfl
      · intro x hx
        simpa using fun heq : x = 46 => hdot (heq ▸ hx)
    rw [variantPath, htake, hdrop, variantPath]
    simp

theorem notMem_variantPath {path : Bytes} {x : UInt8} (hx : isNameChar x = false) (h : x ∉ path)
    (i : ℕ) : x ∉ variantPath path i := by
  rw [variantPath, List.mem_append, List.mem_append]
  rintro ((hmem | hmem) | hmem)
  · exact h (List.takeWhile_subset _ hmem)
  · rw [isNameChar_of_mem_parenthesized hmem] at hx
    exact absurd hx (by decide)
  · exact h (List.dropWhile_subset _ hmem)

theorem rooted_variantPath {path : Bytes} (h : Rooted path) (i : ℕ) :
    Rooted (variantPath path i) := by
  obtain ⟨x, t, rfl, hx⟩ := h
  rw [variantPath]
  by_cases hdot : x = 46
  · exact ⟨40, _, by simp [hdot, parenthesized, ascii]; rfl, by decide⟩
  · rw [List.takeWhile_cons_of_pos (by simpa using hdot),
      List.dropWhile_cons_of_pos (by simpa using hdot)]
    exact ⟨x, _, rfl, hx⟩

/-! ### Looking for a free path -/

section Loops

variable {b : Bytes} {master : Master} {kvs : Tablet}

/-- A call that writes nothing. -/
def Call.Reads : Call → Prop
  | .update _ => False
  | _ => True

theorem Call.Reads.exec_eq {c : Call} (h : c.Reads) : (Call.exec master c kvs).2 = kvs := by
  rcases c with key | ⟨row, column⟩ | u
  · rfl
  · rfl
  · exact h.elim

theorem reads_freeUpload (path : Bytes) (fuel i : ℕ) :
    (freeUpload b path fuel i).Uses Call.Reads := by
  induction fuel generalizing i with
  | zero => exact trivial
  | succ fuel ih =>
    rw [freeUpload]
    split_ifs
    · refine Prog.Uses.ask_bind trivial fun t => ?_
      split_ifs
      · exact ih (i + 1)
      · exact trivial
    · exact trivial

/-- **The path an upload is redirected to**: the first variant that is not a file. -/
theorem run_freeUpload {path : Bytes} {fuel i j : ℕ} {s : Tablet}
    (h : (freeUpload b path fuel i).run (Call.exec master) kvs = (.ok j, s)) :
    s = kvs ∧ 46 ∈ path ∧ i ≤ j ∧ kvs.row b (variantPath path j) ≠ some kvFile ∧
      ∀ n, i ≤ n → n < j → kvs.row b (variantPath path n) = some kvFile := by
  induction fuel generalizing i with
  | zero => exact absurd (Prod.mk.inj h).1 (by simp)
  | succ fuel ih =>
    rw [freeUpload] at h
    split_ifs at h with hdot
    · rw [run_Get_bind] at h
      split_ifs at h with ht
      · obtain ⟨hs, hd, hij, hj, hall⟩ := ih h
        refine ⟨hs, hd, by omega, hj, fun n hn hnj => ?_⟩
        rcases Nat.eq_or_lt_of_le hn with rfl | hn
        · exact (Tablet.text_eq_iff isErr_kvFile).mp ht
        · exact hall n hn hnj
      · obtain ⟨hj, rfl⟩ := Prod.mk.inj h
        obtain rfl := Except.ok.inj hj
        exact ⟨rfl, hdot, le_rfl, fun hrow => ht
          ((Tablet.text_eq_iff isErr_kvFile).mpr hrow), fun n hn hnj => by omega⟩
    · exact absurd (Prod.mk.inj h).1 (by simp)

theorem reads_freeTarget (folder base ext : Bytes) (fuel i : ℕ) (path : Bytes) :
    (freeTarget b folder base ext fuel i path).Uses Call.Reads := by
  induction fuel generalizing i path with
  | zero => exact trivial
  | succ fuel ih =>
    rw [freeTarget]
    refine Prog.Uses.ask_bind trivial fun t => ?_
    split_ifs
    · exact ih (i + 1) _
    · exact trivial

theorem reads_listItems (folder : Bytes) (entries : List Bytes) :
    (listItems b folder entries).Uses Call.Reads := by
  induction entries with
  | nil => exact trivial
  | cons entry entries ih =>
    rw [listItems]
    split_ifs
    · exact ih
    · refine Prog.Uses.ask_bind trivial fun t => ih.bind fun items => ?_
      split_ifs
      · exact trivial
      · exact trivial
      · exact trivial

theorem reads_listPage (folder metadata : Bytes) :
    (listPage b folder metadata).Uses Call.Reads := by
  rw [listPage]
  split_ifs
  · exact trivial
  · exact (reads_listItems folder _).bind fun _ => trivial

/-- The item at a path is there. -/
def Live (R : Row) (p : Bytes) : Prop := R p = some kvFile ∨ R p = some kvFolder

instance (R : Row) (p : Bytes) : Decidable (Live R p) := inferInstanceAs (Decidable (_ ∨ _))

/-- A folder that is there: the root, or a live one. -/
def Existing (R : Row) (folder : Bytes) : Prop := folder = [] ∨ R folder = some kvFolder

/-- **The path a file is moved to** is free, and it is the one asked for or one with
a number. -/
theorem run_freeTarget {folder base ext : Bytes} {fuel i : ℕ} {path v : Bytes} {s : Tablet}
    (h : (freeTarget b folder base ext fuel i path).run (Call.exec master) kvs = (.ok v, s)) :
    s = kvs ∧ ¬Live (kvs.row b) v ∧
      (v = path ∨ ∃ n, v = inFolder folder (base ++ parenthesized n ++ ext)) := by
  induction fuel generalizing i path with
  | zero => exact absurd (Prod.mk.inj h).1 (by simp)
  | succ fuel ih =>
    rw [freeTarget, run_Get_bind] at h
    split_ifs at h with ht
    · obtain ⟨hs, hlive, hv⟩ := ih h
      refine ⟨hs, hlive, Or.inr ?_⟩
      rcases hv with rfl | hv
      · exact ⟨i, rfl⟩
      · exact hv
    · obtain ⟨hv, rfl⟩ := Prod.mk.inj h
      obtain rfl := Except.ok.inj hv
      refine ⟨rfl, fun hlive => ht (hlive.imp ?_ ?_), Or.inl rfl⟩
      · exact (Tablet.text_eq_iff isErr_kvFile).mpr
      · exact (Tablet.text_eq_iff isErr_kvFolder).mpr

/-- A name with a number is not `metadata`. -/
theorem freeTarget_ne_metadata {folder n : Bytes} {fuel i : ℕ} {v : Bytes} {s : Tablet}
    (hne : inFolder folder n ≠ ascii "metadata")
    (h : (freeTarget b folder (leafBase n) (leafExt n) fuel i (inFolder folder n)).run
      (Call.exec master) kvs = (.ok v, s)) : v ≠ ascii "metadata" := by
  obtain ⟨-, -, rfl | ⟨j, rfl⟩⟩ := run_freeTarget h
  · exact hne
  · intro heq
    have hparen : (40 : UInt8) ∈ inFolder folder (leafBase n ++ parenthesized j ++ leafExt n) := by
      rw [inFolder]
      split_ifs <;> simp [parenthesized, ascii]
    rw [heq] at hparen
    exact absurd hparen (by decide)

/-- The path a file is moved to is a name in the target folder. -/
theorem exists_name_of_freeTarget {folder n : Bytes} {fuel i : ℕ} {v : Bytes} {s : Tablet}
    (hn : isValidName n = true)
    (h : (freeTarget b folder (leafBase n) (leafExt n) fuel i (inFolder folder n)).run
      (Call.exec master) kvs = (.ok v, s)) :
    ∃ m, isValidName m = true ∧ v = inFolder folder m := by
  obtain ⟨-, -, rfl | ⟨j, rfl⟩⟩ := run_freeTarget h
  · exact ⟨n, hn, rfl⟩
  · exact ⟨_, isValidName_leaf hn j, rfl⟩

end Loops

/-! ### The empty path -/

namespace KeepsBlank

variable {b : Bytes} {master : Master}

theorem of_reads {α : Type} {p : Handler α} (h : p.Uses Call.Reads) : KeepsBlank b master p := by
  intro kvs hkvs
  rw [h.run_eq (Call.exec master) (fun c s hc => hc.exec_eq) kvs]
  exact hkvs

theorem onWorker {h : Handler Answer} (hh : KeepsBlank b master h) :
    KeepsBlank b master (onWorker b h) := by
  intro kvs hkvs
  rw [PennCloud.onWorker, run_lookup_bind]
  split_ifs
  · exact hkvs
  · exact hh kvs hkvs

theorem deleteRec (fuel : ℕ) (path : Bytes) : KeepsBlank b master (deleteRec b fuel path) := by
  induction fuel generalizing path with
  | zero => exact fail _
  | succ fuel ih =>
    rw [PennCloud.deleteRec]
    intro kvs hkvs
    rw [run_Get_bind]
    split_ifs with hm
    · have hchunks : KeepsBlank b master (deleteChunks b path) := by
        rw [deleteChunks]
        refine get fun _ => ite (fun _ => ?_) fun _ => pure _
        exact (each (fun _ => delete fun _ => pure _) _).bind fun _ => delete fun _ => pure _
      exact (hchunks.bind fun _ => delete fun _ => delete fun _ => pure _) kvs hkvs
    · have hrow := (Tablet.text_eq_iff isErr_kvFolder).mp (not_not.mp hm)
      have hpath : ¬IsBlank path := fun hc => absurd (hrow.symm.trans (hkvs path hc)) (by simp)
      exact (put hpath fun _ => get fun _ => delete fun _ =>
        ite (fun _ => each (fun e => ih e) _) fun _ => pure _) kvs hkvs

theorem storeChunks {path : Bytes} (hpath : Rooted path) (rounds i : ℕ) (rest : Bytes) :
    KeepsBlank b master (storeChunks b path rounds i rest) := by
  induction rounds generalizing i rest with
  | zero => exact pure _
  | succ rounds ih =>
    rw [PennCloud.storeChunks]
    refine ite (fun _ => pure _) fun _ => get fun _ => put (hpath.append _).not_isBlank fun _ =>
      put ?_ fun _ => ih (i + 1) _
    exact (((hpath.append _).append _).append _).not_isBlank

theorem storeUpload {folder path : Bytes} (hfolder : IsFolderPath folder) (hpath : Rooted path)
    (filename fileData : Bytes) :
    KeepsBlank b master (storeUpload b folder filename path fileData) := by
  rw [PennCloud.storeUpload]
  exact put hpath.not_isBlank fun _ => (storeChunks hpath _ _ _).bind fun _ => get fun _ =>
    cput (rooted_metaCol hfolder).not_isBlank fun _ => pure _

theorem removeEntry {folder : Bytes} (hfolder : IsFolderPath folder) (entry : Bytes) :
    KeepsBlank b master (removeEntry b folder entry) := by
  rw [PennCloud.removeEntry]
  exact get fun _ => ite (fun _ => delete fun _ => pure _) fun _ =>
    put (rooted_metaCol hfolder).not_isBlank fun _ => pure _

/-- **Every request keeps the empty path empty.** -/
theorem handler {r : StorageRequest} (hr : r.Valid) (fuel : ℕ) :
    KeepsBlank b master (r.handler b fuel) := by
  cases r with
  | list folder =>
    refine onWorker (get fun listing => bind ?_ fun _ => ?_)
    · rw [resetListing]
      exact ite (fun _ => put (rooted_metaCol hr).not_isBlank fun _ => pure _) fun _ => pure _
    · exact ite (fun _ => of_reads (reads_listPage folder listing)) fun _ => get fun _ =>
        ite (fun _ => pure _) fun _ => of_reads (reads_listPage folder listing)
  | upload folder filename fileData =>
    obtain ⟨hfolder, hname⟩ := hr
    have hpath := (IsPath.inFolder hfolder hname).rooted
    refine onWorker (ite (fun _ => pure _) fun _ => get fun _ => ite (fun _ => ?_) fun _ =>
      storeUpload hfolder hpath _ _)
    exact (of_reads (reads_freeUpload _ _ _)).bind fun i =>
      storeUpload hfolder (rooted_variantPath hpath i) _ _
  | createFolder parent name =>
    obtain ⟨hparent, hname⟩ := hr
    have hpath := (IsPath.inFolder hparent hname).rooted
    have hmake : KeepsBlank b master (makeFolder b parent name (inFolder parent name)) :=
      put hpath.not_isBlank fun _ => put (hpath.append _).not_isBlank fun _ => pure _
    exact onWorker (ite (fun _ => pure _) fun _ => get fun _ => ite (fun _ => pure _) fun _ =>
      get fun _ => ite (fun _ => hmake) fun _ =>
        put (rooted_metaCol hparent).not_isBlank fun _ => hmake)
  | delete path =>
    obtain ⟨folder, n, hfolder, hn, rfl⟩ := hr.exists_inFolder
    refine onWorker (get fun _ => put ?_ fun _ => (deleteRec fuel _).bind fun _ =>
      get fun _ => pure _)
    rw [beforeLast_inFolder hn]
    exact (rooted_metaCol hfolder).not_isBlank
  | renameFile folder oldName newName =>
    obtain ⟨hfolder, hold, hnew⟩ := hr
    have hname := isValidName_ensureSameExtension hold hnew
    have hpath := (IsPath.inFolder hfolder hname).rooted
    exact onWorker (ite (fun _ => pure _) fun _ => get fun _ => ite (fun _ => pure _) fun _ =>
      (relocateFile _ hpath).bind fun _ => get fun _ =>
        put (rooted_metaCol hfolder).not_isBlank fun _ => pure _)
  | renameFolder path newName =>
    obtain ⟨hpath, hnew⟩ := hr
    obtain ⟨folder, n, hfolder, hn, rfl⟩ := hpath.exists_inFolder
    refine onWorker (ite (fun _ => pure _) fun _ => get fun _ => ite (fun _ => pure _) fun _ =>
      get fun _ => put ?_ fun _ => bind ?_ fun _ => pure _)
    · rw [beforeLast_inFolder hn]
      exact (rooted_metaCol hfolder).not_isBlank
    · rw [renameFolderRec_eq, beforeLast_inFolder hn]
      exact moveTree fuel hpath.rooted.not_isBlank (IsPath.inFolder hfolder hnew).rooted
  | moveFile source filename target =>
    obtain ⟨hsource, hname, htarget⟩ := hr
    refine onWorker (ite (fun _ => pure _) fun _ => bind ?_ fun _ => pure _)
    rw [PennCloud.moveFile, beforeLast_inFolder hname, afterLast_inFolder hname]
    intro kvs hkvs
    rcases Prog.run_bind (Call.exec master) (freeTarget b target _ _ fuel 1 _) _ kvs with
      ⟨v, hv, hrun⟩ | ⟨e, -, hrun⟩
    · obtain ⟨m, hm, rfl⟩ := exists_name_of_freeTarget hname hv
      have hrooted := (IsPath.inFolder htarget hm).rooted
      rw [hrun]
      refine ((relocateFile _ hrooted).bind fun _ => get fun _ =>
        put (rooted_metaCol htarget).not_isBlank fun _ =>
          (removeEntry hsource _).bind fun _ => pure _) _ ?_
      exact of_reads (reads_freeTarget _ _ _ _ _ _) kvs hkvs
    · rw [hrun]
      exact of_reads (reads_freeTarget _ _ _ _ _ _) kvs hkvs
  | moveFolder source target =>
    obtain ⟨hsource, htarget⟩ := hr
    obtain ⟨folder, n, hfolder, hn, rfl⟩ := hsource.exists_inFolder
    refine onWorker (ite (fun _ => pure _) fun _ => get fun _ => ite (fun _ => pure _) fun _ =>
      ite (fun _ => pure _) fun _ => bind ?_ fun _ => pure _)
    rw [moveFolder, renameFolderMoveRec_eq, afterLast_inFolder hn, beforeLast_inFolder hn]
    exact (moveTree fuel hsource.rooted.not_isBlank (IsPath.inFolder htarget hn).rooted).bind
      fun _ => get fun _ => put (rooted_metaCol htarget).not_isBlank fun _ =>
        removeEntry hfolder _

end KeepsBlank

/-! ### The rows that are reached -/

/-- A request, and the number of rounds its loops are given. -/
abbrev StorageEvent := ℕ × StorageRequest

/-- A request is worked on. -/
def StorageRequest.step (master : Master) (baseKey : Bytes) (kvs : Tablet) (e : StorageEvent) :
    Tablet :=
  ((e.2.handler baseKey e.1).run (Call.exec master) kvs).2

/-- **Nothing is ever kept under an empty path.** -/
theorem blank_of_reaches {master : Master} {b : Bytes} {kvs₀ kvs : Tablet}
    (h0 : ∀ c, kvs₀.row b c = none)
    (h : Runs.Reaches (StorageRequest.step master b) (fun _ e => e.2.Valid) kvs₀ kvs) :
    Blank (kvs.row b) :=
  h.invariant (P := fun s : Tablet => Blank (s.row b)) (fun c _ => h0 c)
    fun s e hs he => KeepsBlank.handler he e.1 s hs

end PennCloud
