import PennCloud.Frontend.Storage.FileMoves

/-!
# Moving a folder as a walk

The recursion that renames or moves a folder goes through pairs of an old path and a
new one. Looking at a pair moves the item at the old path, if it is a file; if it is a
folder, its own columns, and then its entries come, each with its name under the new
path (`PennCloud.moveLook`). With rounds enough the recursion does what this walk does
(`PennCloud.run_moveTree_iff`).

In a row in good order the pairs that are met are those of the subtree
(`PennCloud.pairsOf`), a tree again (`PennCloud.isTree_pairsOf`).
-/

namespace PennCloud

open Wire Calls Text

variable {k : TreeMove} {master : Master} {kvs : Tablet} {b : Bytes}

/-! ### The walk -/

/-- The store once the columns of a folder itself are moved. -/
def openTablet (kvs : Tablet) (b old new listing : Bytes) : Tablet :=
  (((kvs.put b new kvFolder).put b (new ++ ascii "-metadata") listing).put b old
    delKvFolder).delete b (old ++ ascii "-metadata")

theorem row_openTablet (kvs : Tablet) (b old new listing : Bytes) :
    (openTablet kvs b old new listing).row b = opened (kvs.row b) old new listing := by
  simp only [openTablet, Tablet.row_put, Tablet.row_delete, opened]

/-- What comes after a folder: its entries, each with its new path. -/
def moveNext (k : TreeMove) (p : Bytes × Bytes) (text : Bytes) : List (Bytes × Bytes) :=
  (k.children p.1 text).map fun e => (e, k.target p.2 e)

/-- What looking at a pair does. -/
def moveLook (k : TreeMove) (master : Master) (b : Bytes) : Look Abort Tablet (Bytes × Bytes) :=
  fun p kvs =>
    if kvs.row b p.1 = some kvFolder then
      (.ok (moveNext k p (kvs.text b (p.1 ++ ascii "-metadata"))),
        openTablet kvs b p.1 p.2 (k.listing p.1 p.2 (kvs.text b (p.1 ++ ascii "-metadata"))))
    else if k.moves (kvs.text b p.1) then
      (((relocateFile b p.1 p.2).run (Call.exec master) kvs).1.map fun _ => [],
        ((relocateFile b p.1 p.2).run (Call.exec master) kvs).2)
    else (.ok [], kvs)

/-- The recursion with the reading of the marker at the beginning of each round. -/
def moveItem (k : TreeMove) (b : Bytes) : ℕ → Bytes × Bytes → Handler Unit
  | 0, _ => Prog.fail .running
  | fuel + 1, p => do
    let marker ← Get b p.1
    if marker = kvFolder then
      let text ← Get b (p.1 ++ ascii "-metadata")
      let _ ← Put b p.2 kvFolder
      let _ ← Put b (p.2 ++ ascii "-metadata") (k.listing p.1 p.2 text)
      let _ ← Put b p.1 delKvFolder
      let _ ← Delete b (p.1 ++ ascii "-metadata")
      Prog.each (moveItem k b fuel) (moveNext k p text)
    else if k.moves marker then relocateFile b p.1 p.2
    else return ()

theorem run_moveItem_folder {p : Bytes × Bytes} (h : kvs.row b p.1 = some kvFolder) (fuel : ℕ) :
    (moveItem k b (fuel + 1) p).run (Call.exec master) kvs =
      (Prog.each (moveItem k b fuel) (moveNext k p (kvs.text b (p.1 ++ ascii "-metadata")))).run
        (Call.exec master) (openTablet kvs b p.1 p.2
          (k.listing p.1 p.2 (kvs.text b (p.1 ++ ascii "-metadata")))) := by
  rw [moveItem, run_Get_bind, if_pos (Tablet.text_of_row h), run_Get_bind, run_Put_bind,
    run_Put_bind, run_Put_bind, run_Delete_bind, openTablet]

theorem run_moveItem_file {p : Bytes × Bytes} (h : kvs.row b p.1 ≠ some kvFolder) (fuel : ℕ) :
    (moveItem k b (fuel + 1) p).run (Call.exec master) kvs =
      if k.moves (kvs.text b p.1) then (relocateFile b p.1 p.2).run (Call.exec master) kvs
      else (.ok (), kvs) := by
  have hmarker : kvs.text b p.1 ≠ kvFolder := fun ht =>
    h ((Tablet.text_eq_iff isErr_kvFolder).mp ht)
  rw [moveItem, run_Get_bind, if_neg hmarker]
  split_ifs <;> rfl

theorem recursion_moveItem (k : TreeMove) (master : Master) (b : Bytes) :
    Recursion (Call.exec master) (moveLook k master b) (moveItem k b) := by
  refine ⟨fun p kvs t h => absurd (Prod.mk.inj h).1 (by simp), fun fuel p kvs => ?_⟩
  rw [moveLook]
  split_ifs with hfolder hmoves
  · exact run_moveItem_folder hfolder fuel
  · rw [run_moveItem_file hfolder, if_pos hmoves]
    rcases (relocateFile b p.1 p.2).run (Call.exec master) kvs with ⟨e | a, s⟩ <;> rfl
  · rw [run_moveItem_file hfolder, if_neg hmoves]
    rfl

/-- A round of the recursion: the folder itself, and then the loop. -/
theorem run_moveTree_open (fuel : ℕ) (old new : Bytes) :
    (moveTree k b (fuel + 1) old new).run (Call.exec master) kvs =
      (Prog.each (moveChild k b (moveTree k b fuel) new)
        (k.children old (kvs.text b (old ++ ascii "-metadata")))).run (Call.exec master)
          (openTablet kvs b old new
            (k.listing old new (kvs.text b (old ++ ascii "-metadata")))) := by
  rw [moveTree, run_Get_bind, run_Put_bind, run_Put_bind, run_Put_bind, run_Delete_bind, openTablet]

/-- The two recursions differ in when they read the marker. -/
theorem run_moveTree_of_item {fuel : ℕ} {p : Bytes × Bytes} {t : Tablet}
    (hfolder : kvs.row b p.1 = some kvFolder)
    (h : (moveItem k b fuel p).run (Call.exec master) kvs = (.ok (), t)) :
    (moveTree k b fuel p.1 p.2).run (Call.exec master) kvs = (.ok (), t) := by
  induction fuel generalizing p kvs t with
  | zero => exact absurd (Prod.mk.inj h).1 (by simp)
  | succ fuel ih =>
    rw [run_moveItem_folder hfolder, moveNext, Prog.each_map] at h
    rw [run_moveTree_open]
    refine Prog.run_each_mono (fun e s t hs => ?_) h
    rcases fuel with _ | fuel
    · exact absurd (Prod.mk.inj hs).1 (by simp)
    · rw [moveChild, run_Get_bind]
      by_cases hmarker : s.row b e = some kvFolder
      · rw [if_pos (Tablet.text_of_row hmarker)]
        exact ih (p := (e, k.target p.2 e)) hmarker hs
      · have hne : s.text b e ≠ kvFolder := fun ht =>
          hmarker ((Tablet.text_eq_iff isErr_kvFolder).mp ht)
        have hfile :=
          (@run_moveItem_file k master s b (e, k.target p.2 e) hmarker fuel).symm.trans hs
        rw [if_neg hne]
        split_ifs with hmoves
        · rwa [if_pos hmoves] at hfile
        · rwa [if_neg hmoves] at hfile

theorem run_item_of_moveTree {fuel : ℕ} {p : Bytes × Bytes} {t : Tablet}
    (hfolder : kvs.row b p.1 = some kvFolder)
    (h : (moveTree k b fuel p.1 p.2).run (Call.exec master) kvs = (.ok (), t)) :
    (moveItem k b (fuel + 1) p).run (Call.exec master) kvs = (.ok (), t) := by
  induction fuel generalizing p kvs t with
  | zero => exact absurd (Prod.mk.inj h).1 (by simp)
  | succ fuel ih =>
    rw [run_moveTree_open] at h
    rw [run_moveItem_folder hfolder, moveNext, Prog.each_map]
    refine Prog.run_each_mono (fun e s t hs => ?_) h
    rw [moveChild, run_Get_bind] at hs
    by_cases hmarker : s.row b e = some kvFolder
    · rw [if_pos (Tablet.text_of_row hmarker)] at hs
      exact ih (p := (e, k.target p.2 e)) hmarker hs
    · have hne : s.text b e ≠ kvFolder := fun ht =>
        hmarker ((Tablet.text_eq_iff isErr_kvFolder).mp ht)
      rw [if_neg hne] at hs
      refine (@run_moveItem_file k master s b (e, k.target p.2 e) hmarker fuel).trans ?_
      split_ifs at hs ⊢ with hmoves
      · exact hs
      · exact hs

/-- A walk to the end is a move, with rounds enough. -/
theorem run_moveTree_of_walk {old new : Bytes} {t : Tablet}
    (hfolder : kvs.row b old = some kvFolder)
    (h : Walk (moveLook k master b) (fun _ _ => True) [(old, new)] kvs t) :
    ∃ n, ∀ fuel, n ≤ fuel →
      (moveTree k b fuel old new).run (Call.exec master) kvs = (.ok (), t) := by
  obtain ⟨n, hrun⟩ := (recursion_moveItem k master b).run_of_walk h
  obtain ⟨⟨⟩, s, hitem, hend⟩ := Prog.run_bind_ok _ hrun
  obtain ⟨-, rfl⟩ := Prod.mk.inj hend
  exact ⟨n, fun fuel hle => run_moveTree_of_item (p := (old, new)) hfolder
    ((recursion_moveItem k master b).run_of_le hitem hle)⟩

/-- **A folder is moved** exactly when there is a walk to the end. -/
theorem run_moveTree_iff {old new : Bytes} {t : Tablet} (hfolder : kvs.row b old = some kvFolder) :
    (∃ fuel, (moveTree k b fuel old new).run (Call.exec master) kvs = (.ok (), t)) ↔
      Walk (moveLook k master b) (fun _ _ => True) [(old, new)] kvs t := by
  constructor
  · rintro ⟨fuel, h⟩
    exact (recursion_moveItem k master b).run_iff.mp
      ⟨fuel + 1, Prog.run_bind_of_ok _ (run_item_of_moveTree (p := (old, new)) hfolder h)⟩
  · intro h
    obtain ⟨n, hrun⟩ := run_moveTree_of_walk hfolder h
    exact ⟨n, hrun n le_rfl⟩

/-! ### The pairs of a subtree -/

/-- The pairs that come after a pair: the live children of the folder, with their new
paths. -/
def pairsOf (R : Row) (p : Bytes × Bytes) : Set (Bytes × Bytes) :=
  {x | R p.1 = some kvFolder ∧ ∃ n, isValidName n = true ∧
    x = (p.1 ++ 47 :: n, p.2 ++ 47 :: n) ∧ Live R x.1}

section Pairs

variable {R : Row} {old new : Bytes} {p q : Bytes × Bytes}

/-- Both paths of a pair go on in the same way. -/
theorem exists_of_found (h : p ∈ Found (pairsOf R) (old, new)) :
    ∃ t, p = (old ++ t, new ++ t) ∧ (∀ x ∈ t.head?, x = 47) ∧ p.1 ∈ Found (childrenOf R) old := by
  induction (h : Relation.ReflTransGen (fun x y => y ∈ pairsOf R x) (old, new) p) with
  | refl => exact ⟨[], by simp, by simp, Relation.ReflTransGen.refl⟩
  | tail _ hstep ih =>
    obtain ⟨t, rfl, ht, hfound⟩ := ih
    obtain ⟨hfolder, n, hn, rfl, hlive⟩ := hstep
    refine ⟨t ++ 47 :: n, by simp, fun x hx => ?_, hfound.tail ⟨hfolder, n, hn, rfl, hlive⟩⟩
    rcases t with _ | ⟨y, t⟩
    · exact (Option.some.inj hx).symm
    · exact ht x hx

/-- Every item below the old path is in a pair. -/
theorem exists_pair {q : Bytes} (h : q ∈ Found (childrenOf R) old) :
    ∃ t, q = old ++ t ∧ (q, new ++ t) ∈ Found (pairsOf R) (old, new) := by
  induction (h : Relation.ReflTransGen (fun x y => y ∈ childrenOf R x) old q) with
  | refl =>
    refine ⟨[], by simp, ?_⟩
    rw [List.append_nil]
    exact Relation.ReflTransGen.refl
  | tail _ hstep ih =>
    obtain ⟨t, rfl, hfound⟩ := ih
    obtain ⟨hfolder, n, hn, rfl, hlive⟩ := hstep
    refine ⟨t ++ 47 :: n, by simp, hfound.tail ⟨hfolder, n, hn, ?_, hlive⟩⟩
    simp

theorem under_old_of_found (h : p ∈ Found (pairsOf R) (old, new)) : Under old p.1 := by
  obtain ⟨t, rfl, ht, -⟩ := exists_of_found h
  exact ⟨t, rfl, fun x hx => Or.inl (ht x hx)⟩

theorem under_new_of_found (h : p ∈ Found (pairsOf R) (old, new)) : Under new p.2 := by
  obtain ⟨t, rfl, ht, -⟩ := exists_of_found h
  exact ⟨t, rfl, fun x hx => Or.inl (ht x hx)⟩

theorem path_new_of_found (hnew : IsPath new) (h : p ∈ Found (pairsOf R) (old, new)) :
    IsPath p.2 := by
  induction (h : Relation.ReflTransGen (fun x y => y ∈ pairsOf R x) (old, new) p) with
  | refl => exact hnew
  | tail _ hstep ih =>
    obtain ⟨-, n, hn, rfl, -⟩ := hstep
    exact ih.append hn

theorem path_old_of_found (hold : IsPath old) (h : p ∈ Found (pairsOf R) (old, new)) :
    IsPath p.1 := by
  obtain ⟨-, -, -, hfound⟩ := exists_of_found h
  exact path_of_found hold hfound

/-- A pair is known by either of its paths. -/
theorem pair_eq_of_old (hp : p ∈ Found (pairsOf R) (old, new))
    (hq : q ∈ Found (pairsOf R) (old, new)) (h : p.1 = q.1) : p = q := by
  obtain ⟨t, rfl, -⟩ := exists_of_found hp
  obtain ⟨u, rfl, -⟩ := exists_of_found hq
  rw [List.append_cancel_left h]

theorem pair_eq_of_new (hp : p ∈ Found (pairsOf R) (old, new))
    (hq : q ∈ Found (pairsOf R) (old, new)) (h : p.2 = q.2) : p = q := by
  obtain ⟨t, rfl, -⟩ := exists_of_found hp
  obtain ⟨u, rfl, -⟩ := exists_of_found hq
  rw [List.append_cancel_left h]

/-- A child of a new path is the new path of a child. -/
theorem child_of_new {n : Bytes} (hp : p ∈ Found (pairsOf R) (old, new))
    (hq : q ∈ Found (pairsOf R) (old, new)) (h : q.2 = p.2 ++ 47 :: n) : q.1 = p.1 ++ 47 :: n := by
  obtain ⟨t, rfl, -⟩ := exists_of_found hp
  obtain ⟨u, rfl, -⟩ := exists_of_found hq
  rw [List.append_assoc] at h ⊢
  rw [List.append_cancel_left h]

/-- **The pairs of a subtree are a finite tree.** -/
theorem isTree_pairsOf (hlive : Live R old) (hfin : {c | R c ≠ none}.Finite) :
    IsTree (pairsOf R) (old, new) := by
  refine ⟨?_, ?_, ?_⟩
  · refine ((isTree_childrenOf hlive hfin).finite.image
      fun q => (q, new ++ q.drop old.length)).subset fun p hp => ?_
    obtain ⟨t, rfl, -, hfound⟩ := exists_of_found hp
    exact ⟨_, hfound, by simp⟩
  · rintro q hq ⟨-, n, -, heq, -⟩
    obtain ⟨t, rfl, -⟩ := exists_of_found hq
    have hlen := congrArg List.length (Prod.mk.inj heq).1
    simp only [List.length_append, List.length_cons] at hlen
    omega
  · rintro p - q - x ⟨-, n, hn, rfl, -⟩ ⟨-, m, hm, heq, -⟩
    obtain ⟨h1, h2⟩ := Prod.mk.inj heq
    have hfst := congrArg (beforeLast 47) h1
    have hsnd := congrArg (beforeLast 47) h2
    rw [beforeLast_append _ (notMem_of_isValidName hn),
      beforeLast_append _ (notMem_of_isValidName hm)] at hfst hsnd
    exact Prod.ext hfst hsnd

end Pairs

end PennCloud
