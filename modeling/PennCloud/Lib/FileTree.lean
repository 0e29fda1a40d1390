import Mathlib.Data.List.Infix
import Mathlib.Logic.Function.Basic

/-!
# Trees of files and folders

What a hierarchical store is for, with no regard to how it keeps its things: a map
from paths to items, where a path is the list of the names from the root on and
everything is in a folder that is there. That is the one condition on a tree, and
from it nothing is below a file, and nothing below a path where nothing is
(`FileTree.item_append_eq_none`).

Three operations are enough for what users do to such a tree: an item is put at a
path that is free, a subtree is taken away, and a subtree goes to a path that is
free and not below it. Each of them is given what it needs, and makes a tree.
-/

/-- What is at a path: a folder, or a file with its data. -/
inductive FileItem (D : Type*) where
  | folder
  | file (data : D)

/-- **A tree of files and folders.** -/
structure FileTree (N D : Type*) where
  /-- The item at a path. -/
  item : List N → Option (FileItem D)
  /-- The root is a folder. -/
  root : item [] = some .folder
  /-- Everything is in a folder. -/
  parent : ∀ p n, item (p ++ [n]) ≠ none → item p = some .folder

namespace FileTree

variable {N D : Type*}

/-- The tree with nothing in it. -/
def empty : FileTree N D where
  item := fun p => if p.isEmpty then some .folder else none
  root := rfl
  parent := fun p n h => absurd (by cases p <;> rfl) h

theorem item_empty_concat (p : List N) (n : N) :
    (empty : FileTree N D).item (p ++ [n]) = none := by
  cases p <;> rfl

section Paths

variable (t : FileTree N D) {p q : List N}

/-- Whatever is above an item is a folder. -/
theorem folder_of_append {s : List N} (hs : s ≠ []) (h : t.item (p ++ s) ≠ none) :
    t.item p = some .folder := by
  induction s using List.reverseRecOn with
  | nil => exact absurd rfl hs
  | append_singleton s n ih =>
    rw [← List.append_assoc] at h
    have hfolder := t.parent _ n h
    by_cases hnil : s = []
    · rwa [hnil, List.append_nil] at hfolder
    · exact ih hnil (by simp [hfolder])

/-- Nothing is below a path where no folder is. -/
theorem item_append_eq_none {s : List N} (hs : s ≠ []) (h : t.item p ≠ some .folder) :
    t.item (p ++ s) = none := by
  by_contra hne
  exact h (t.folder_of_append hs hne)

/-- Nothing is at or below a path that is free. -/
theorem item_eq_none_of_prefix (h : t.item p = none) (hpq : p <+: q) : t.item q = none := by
  obtain ⟨s, rfl⟩ := hpq
  by_cases hs : s = []
  · rwa [hs, List.append_nil]
  · exact t.item_append_eq_none hs (by simp [h])

end Paths

/-- A prefix of a path with one name more. -/
theorem prefix_concat {p q : List N} {n : N} (h : p <+: q ++ [n]) : p <+: q ∨ p = q ++ [n] :=
  (List.prefix_concat_iff.mp h).symm

/-! ### What the operations need -/

/-- An item `n` can be put into the folder `p`. -/
structure CanCreate (t : FileTree N D) (p : List N) (n : N) : Prop where
  /-- The folder is there, -/
  folder : t.item p = some .folder
  /-- and has no such item. -/
  free : t.item (p ++ [n]) = none

/-- The item `p` can go into the folder `target` as `n`. -/
structure CanMove (t : FileTree N D) (p target : List N) (n : N) : Prop where
  /-- There is an item, -/
  live : t.item p ≠ none
  /-- and it is not the root. -/
  proper : p ≠ []
  /-- The folder is there, -/
  folder : t.item target = some .folder
  /-- has no such item, -/
  free : t.item (target ++ [n]) = none
  /-- and is not in what is to be moved. -/
  outside : ¬p <+: target

/-- Of a sequence of names, the first that no item of a folder has. -/
def FirstFree (t : FileTree N D) (p : List N) (names : ℕ → N) (n : N) : Prop :=
  ∃ i, n = names i ∧ t.item (p ++ [n]) = none ∧ ∀ j < i, t.item (p ++ [names j]) ≠ none

namespace CanMove

variable {t : FileTree N D} {p target : List N} {n : N} (h : t.CanMove p target n)
include h

/-- The new path is not below the old one, -/
theorem not_prefix : ¬p <+: target ++ [n] := by
  intro hpre
  rcases prefix_concat hpre with hpre | rfl
  · exact h.outside hpre
  · exact h.live h.free

/-- nor the old one below the new one. -/
theorem not_prefix' : ¬target ++ [n] <+: p := fun hpre =>
  h.live (t.item_eq_none_of_prefix h.free hpre)

/-- What is below the one path is not below the other. -/
theorem apart {q : List N} (hq : p <+: q) : ¬target ++ [n] <+: q := fun hq' =>
  (List.prefix_or_prefix_of_prefix hq hq').elim h.not_prefix h.not_prefix'

end CanMove

variable [DecidableEq N]

/-! ### Putting an item -/

/-- An item is put into a folder. -/
def create (t : FileTree N D) (p : List N) (n : N) (x : FileItem D) (h : t.CanCreate p n) :
    FileTree N D where
  item := Function.update t.item (p ++ [n]) (some x)
  root := by
    rw [Function.update_of_ne (by simp)]
    exact t.root
  parent := by
    intro q m hm
    have hq : t.item q = some .folder := by
      by_cases heq : q ++ [m] = p ++ [n]
      · rw [(List.append_inj' heq rfl).1]
        exact h.folder
      · rw [Function.update_of_ne heq] at hm
        exact t.parent q m hm
    rw [Function.update_of_ne, hq]
    rintro rfl
    rw [h.free] at hq
    exact absurd hq (by simp)

section Create

variable {t : FileTree N D} {p : List N} {n : N} {x : FileItem D} (h : t.CanCreate p n)

@[simp] theorem item_create_self : (t.create p n x h).item (p ++ [n]) = some x :=
  Function.update_self ..

theorem item_create_of_ne {q : List N} (hq : q ≠ p ++ [n]) :
    (t.create p n x h).item q = t.item q :=
  Function.update_of_ne hq ..

end Create

/-! ### Taking a subtree away -/

/-- A subtree is taken away. -/
def remove (t : FileTree N D) (p : List N) (hp : p ≠ []) : FileTree N D where
  item := fun q => if p <+: q then none else t.item q
  root := by
    rw [if_neg (by simpa using hp)]
    exact t.root
  parent := by
    intro q m hm
    by_cases hpre : p <+: q ++ [m]
    · exact absurd (if_pos hpre) hm
    · rw [if_neg hpre] at hm
      rw [if_neg fun hq => hpre (hq.trans (List.prefix_append q [m]))]
      exact t.parent q m hm

section Remove

variable {t : FileTree N D} {p q : List N} (hp : p ≠ [])

theorem item_remove_below (hq : p <+: q) : (t.remove p hp).item q = none := if_pos hq

theorem item_remove_of_not (hq : ¬p <+: q) : (t.remove p hp).item q = t.item q := if_neg hq

end Remove

/-! ### Moving a subtree -/

/-- A subtree is moved. -/
def move (t : FileTree N D) (p target : List N) (n : N) (h : t.CanMove p target n) :
    FileTree N D where
  item := fun q =>
    if target ++ [n] <+: q then t.item (p ++ q.drop (target.length + 1))
    else if p <+: q then none
    else t.item q
  root := by
    rw [if_neg (by simp), if_neg (by simpa using h.proper)]
    exact t.root
  parent := by
    intro q m hm
    by_cases hnew : target ++ [n] <+: q
    · have hlong : target.length + 1 ≤ q.length := by simpa using hnew.length_le
      rw [if_pos (hnew.trans (List.prefix_append q [m])), List.drop_append_of_le_length hlong,
        ← List.append_assoc] at hm
      rw [if_pos hnew]
      exact t.parent _ m hm
    · by_cases hself : target ++ [n] <+: q ++ [m]
      · -- the folder the subtree goes to
        obtain ⟨rfl, -⟩ := List.append_inj' ((prefix_concat hself).resolve_left hnew) rfl
        rw [if_neg hnew, if_neg h.outside]
        exact h.folder
      · by_cases hold : p <+: q ++ [m]
        · rw [if_neg hself, if_pos hold] at hm
          exact absurd rfl hm
        · rw [if_neg hself, if_neg hold] at hm
          rw [if_neg hnew, if_neg fun hq => hold (hq.trans (List.prefix_append q [m]))]
          exact t.parent q m hm

section Move

variable {t : FileTree N D} {p target q : List N} {n : N} (h : t.CanMove p target n)

theorem item_move_new (s : List N) :
    (t.move p target n h).item (target ++ [n] ++ s) = t.item (p ++ s) := by
  have hdrop : (target ++ [n] ++ s).drop (target.length + 1) = s := by
    rw [List.drop_append_of_le_length (by simp), List.drop_of_length_le (by simp), List.nil_append]
  rw [move]
  simp only [List.prefix_append, if_true, hdrop]

theorem item_move_old (hq : p <+: q) : (t.move p target n h).item q = none := by
  rw [move]
  simp only [h.apart hq, hq, if_true, if_false]

theorem item_move_of_not (hnew : ¬target ++ [n] <+: q) (hold : ¬p <+: q) :
    (t.move p target n h).item q = t.item q := by
  rw [move]
  simp only [hnew, hold, if_false]

/-- **A leaf that is moved** is all there is to move. -/
theorem item_move_leaf (hleaf : ∀ s, s ≠ [] → t.item (p ++ s) = none) :
    (t.move p target n h).item q = if q = target ++ [n] then t.item p
      else if q = p then none else t.item q := by
  by_cases hnew : target ++ [n] <+: q
  · obtain ⟨s, rfl⟩ := hnew
    rw [item_move_new]
    by_cases hs : s = []
    · rw [hs, List.append_nil, List.append_nil, if_pos rfl]
    · have hne : target ++ [n] ++ s ≠ p := fun heq => h.not_prefix' ⟨s, heq⟩
      rw [if_neg (by simpa using hs), if_neg hne, hleaf s hs,
        t.item_eq_none_of_prefix h.free (List.prefix_append _ s)]
  · have hne : q ≠ target ++ [n] := by
      rintro rfl
      exact hnew (List.prefix_refl _)
    rw [if_neg hne]
    by_cases hold : p <+: q
    · rw [item_move_old h hold]
      obtain ⟨s, rfl⟩ := hold
      split_ifs with hs
      · rfl
      · exact (hleaf s (by simpa using hs)).symm
    · rw [item_move_of_not h hnew hold, if_neg]
      rintro rfl
      exact hold (List.prefix_refl _)

end Move

end FileTree
