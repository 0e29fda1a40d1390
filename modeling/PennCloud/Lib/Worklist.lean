import PennCloud.Lib.Calls
import Mathlib.Algebra.BigOperators.Finprod
import Mathlib.Algebra.Order.BigOperators.Group.Finset
import Mathlib.Data.Set.Card
import Mathlib.Logic.Relation

/-!
# Recursions that go through a list of items

A recursion that looks at an item, works on the store, and then goes on with further
items one after the other is a **walk** (`Calls.Walk`): a list of items is still to
come, the first of them is taken off, and its own come in front of the others. What
looking at an item does is a function of the item and the store (`Calls.Look`), and
`Calls.Recursion` says that a program with a number of rounds is the recursion.

The walk has no rounds. `Calls.Recursion.run_iff` says that with rounds enough the
program does just what the walk does, so that the program comes to its end exactly
when there is a walk to the end. What holds of a walk is then shown along it
(`Calls.Walk.inv`); and of a walk that has kept something to its end, that every item
on the way did (`Calls.Walk.of_kept`).

The items that are found from one another may be a finite tree (`Calls.IsTree`). When
looking at a new one leads to its successors and to nothing new besides
(`Calls.LooksThrough`), the walk comes to its end and has been at every item of the tree
(`Calls.Visiting.exists_walk`). Where the items change on the way, a sum of weights that
gets smaller (`Calls.weight`) bounds the rounds.
-/

namespace Calls

variable {C A E S γ : Type}

/-- What looking at an item does: it goes on with other items, or stops, and leaves
the store in some way. -/
abbrev Look (E S γ : Type) := γ → S → Except E (List γ) × S

/-- **The walk** from a store to the end of a list of items, each of which is of the
kind `Q` at the time it is looked at. -/
inductive Walk (look : Look E S γ) (Q : γ → S → Prop) : List γ → S → S → Prop where
  /-- There is nothing more to come. -/
  | done (s : S) : Walk look Q [] s s
  /-- The next item, and what it goes on with. -/
  | item {x : γ} {xs ys : List γ} {s s' t : S} (kind : Q x s) (found : look x s = (.ok ys, s'))
      (rest : Walk look Q (ys ++ xs) s' t) : Walk look Q (x :: xs) s t

namespace Walk

variable {look : Look E S γ} {Q Q' : γ → S → Prop} {xs ys : List γ} {s s' t : S}

/-- What every item of the kind keeps, the walk keeps. -/
theorem inv {I : List γ → S → Prop}
    (hstep : ∀ x xs s ys s', I (x :: xs) s → Q x s → look x s = (.ok ys, s') → I (ys ++ xs) s')
    (h : Walk look Q xs s t) (hs : I xs s) : I [] t := by
  induction h with
  | done s => exact hs
  | item kind found _ ih => exact ih (hstep _ _ _ _ _ hs kind found)

/-- There is one walk at most. -/
theorem unique (h : Walk look Q xs s t) {t' : S} (h' : Walk look Q' xs s t') : t = t' := by
  induction h with
  | done s =>
    cases h'
    rfl
  | item _ found _ ih =>
    cases h' with
    | item _ found' rest' =>
      obtain ⟨hys, rfl⟩ := Prod.mk.inj (found.symm.trans found')
      obtain rfl := Except.ok.inj hys
      exact ih rest'

/-- **What was kept to the end was kept by every item**, when it is not regained: an
item of the kind keeps `P`, any other breaks it, and what is broken stays broken. -/
theorem of_kept {P B : S → Prop}
    (hstep : ∀ x s ys s', look x s = (.ok ys, s') → P s → (Q x s ∧ P s') ∨ B s')
    (hbroken : ∀ x s ys s', look x s = (.ok ys, s') → B s → B s') (hne : ∀ s, P s → ¬B s)
    (h : Walk look (fun _ _ => True) xs s t) (hs : P s) (ht : P t) : Walk look Q xs s t := by
  induction h with
  | done s => exact .done s
  | item _ found rest ih =>
    rcases hstep _ _ _ _ found hs with ⟨kind, hs'⟩ | hb
    · exact .item kind found (ih hs' ht)
    · have hend :=
        rest.inv (I := fun _ s => B s) (fun _ _ _ _ _ hb _ hf => hbroken _ _ _ _ hf hb) hb
      exact absurd hend (hne _ ht)

end Walk

/-! ### Walks through a tree -/

section Tree

variable (next : γ → Set γ)

/-- What is reached from `a`. -/
def Found (a : γ) : Set γ := {q | Relation.ReflTransGen (fun x y => y ∈ next x) a q}

/-- What is reached from `a` is a finite tree: nothing leads back to `a`, and only one
item leads to each of the others. -/
structure IsTree (a : γ) : Prop where
  /-- It is finite. -/
  finite : (Found next a).Finite
  /-- The root comes from nothing. -/
  root : ∀ q ∈ Found next a, a ∉ next q
  /-- Everything else comes from one item. -/
  parent : ∀ p ∈ Found next a, ∀ q ∈ Found next a, ∀ x, x ∈ next p → x ∈ next q → p = q

variable {next} {a x : γ} {skip : γ → Prop} [DecidablePred skip] {V : Set γ} {xs ys : List γ}

/-- The items `V` have been looked at, and the items `xs` are to come. Some of these may
be skipped. -/
structure Visiting (next : γ → Set γ) (a : γ) (skip : γ → Prop) [DecidablePred skip] (V : Set γ)
    (xs : List γ) : Prop where
  /-- Only what is reached is looked at. -/
  reached : V ⊆ Found next a
  /-- An item to come is new, and comes from one that was looked at. -/
  new : ∀ x ∈ xs, skip x ∨ (x ∈ Found next a ∧ x ∉ V ∧ (x = a ∨ ∃ p ∈ V, x ∈ next p))
  /-- So does an item that was looked at. -/
  old : ∀ x ∈ V, x = a ∨ ∃ p ∈ V, x ∈ next p
  /-- Each comes once. -/
  nodup : (xs.filter fun x => ¬skip x).Nodup
  /-- The root is not forgotten, -/
  start : a ∈ V ∨ a ∈ xs
  /-- and nothing else is. -/
  onward : ∀ p ∈ V, ∀ y ∈ next p, y ∈ V ∨ y ∈ xs

/-- In the end, everything was looked at. -/
theorem Visiting.eq_found (h : Visiting next a skip V []) : V = Found next a := by
  refine Set.Subset.antisymm h.reached fun q hq => ?_
  induction (hq : Relation.ReflTransGen (fun x y => y ∈ next x) a q) with
  | refl => exact h.start.resolve_right List.not_mem_nil
  | tail _ hq ih => exact (h.onward _ ih _ hq).resolve_right List.not_mem_nil

theorem Visiting.skip_head (h : Visiting next a skip V (x :: xs)) (hx : skip x)
    (hno : ∀ q ∈ Found next a, ¬skip q) : Visiting next a skip V xs := by
  have hne : ∀ q ∈ Found next a, q ∈ V ∨ q ∈ x :: xs → q ∈ V ∨ q ∈ xs := by
    intro q hq hor
    refine hor.imp_right fun hmem => (List.mem_cons.mp hmem).resolve_left ?_
    rintro rfl
    exact hno q hq hx
  refine ⟨h.reached, fun y hy => h.new y (List.mem_cons_of_mem x hy), h.old, ?_, ?_, ?_⟩
  · have hnodup := h.nodup
    rwa [List.filter_cons, if_neg (by simpa using hx)] at hnodup
  · exact hne a Relation.ReflTransGen.refl h.start
  · exact fun p hp y hy => hne y ((h.reached hp).tail hy) (h.onward p hp y hy)

/-- An item that is looked at is replaced by its own. -/
theorem Visiting.look (ht : IsTree next a) (h : Visiting next a skip V (x :: xs)) (hx : ¬skip x)
    (hno : ∀ q ∈ Found next a, ¬skip q) (hys : ∀ y ∈ ys, skip y ∨ y ∈ next x)
    (hnext : ∀ y ∈ next x, y ∈ ys) (hnodup : (ys.filter fun y => ¬skip y).Nodup) :
    Visiting next a skip (insert x V) (ys ++ xs) := by
  obtain ⟨hfound, hnew, hfrom⟩ := (h.new x List.mem_cons_self).resolve_left hx
  have hxs : x ∉ xs := by
    have hd := h.nodup
    rw [List.filter_cons, if_pos (by simpa using hx)] at hd
    exact fun hm => (List.nodup_cons.mp hd).1 (List.mem_filter.mpr ⟨hm, by simpa using hx⟩)
  -- what comes from `x` comes from nothing else
  have honly : ∀ y ∈ next x, y ≠ a ∧ ∀ p ∈ V, y ∉ next p := by
    refine fun y hy => ⟨?_, fun p hp hy' => hnew ?_⟩
    · rintro rfl
      exact ht.root x hfound hy
    · exact ht.parent p (h.reached hp) x hfound y hy' hy ▸ hp
  have hchild : ∀ y ∈ next x, y ∉ V ∧ y ≠ x ∧ y ∉ xs := by
    intro y hy
    obtain ⟨hya, hyV⟩ := honly y hy
    have hpar : ¬(y = a ∨ ∃ p ∈ V, y ∈ next p) := by
      rintro (heq | ⟨p, hp, hyp⟩)
      · exact hya heq
      · exact hyV p hp hyp
    refine ⟨fun hm => hpar (h.old y hm), ?_, fun hm => ?_⟩
    · rintro rfl
      exact hpar hfrom
    · rcases h.new y (List.mem_cons_of_mem x hm) with hs | ⟨-, -, hf⟩
      · exact hno y (hfound.tail hy) hs
      · exact hpar hf
  refine ⟨Set.insert_subset hfound h.reached, ?_, ?_, ?_, ?_, ?_⟩
  · intro y hy
    rcases List.mem_append.mp hy with hy | hy
    · refine (hys y hy).imp_right fun hyx => ?_
      obtain ⟨h1, h2, -⟩ := hchild y hyx
      exact ⟨hfound.tail hyx, fun hm => (Set.mem_insert_iff.mp hm).elim h2 h1,
        Or.inr ⟨x, Set.mem_insert x V, hyx⟩⟩
    · refine (h.new y (List.mem_cons_of_mem x hy)).imp_right ?_
      rintro ⟨h1, h2, h3⟩
      refine ⟨h1, fun hm => (Set.mem_insert_iff.mp hm).elim (fun heq => hxs (heq ▸ hy)) h2, ?_⟩
      exact h3.imp_right fun ⟨p, hp, hyp⟩ => ⟨p, Set.mem_insert_of_mem x hp, hyp⟩
  · rintro y hy
    rcases Set.mem_insert_iff.mp hy with rfl | hy
    · exact hfrom.imp_right fun ⟨p, hp, hyp⟩ => ⟨p, Set.mem_insert_of_mem y hp, hyp⟩
    · exact (h.old y hy).imp_right fun ⟨p, hp, hyp⟩ => ⟨p, Set.mem_insert_of_mem x hp, hyp⟩
  · rw [List.filter_append, List.nodup_append']
    refine ⟨hnodup, ?_, fun y hy hy' => ?_⟩
    · have hd := h.nodup
      rw [List.filter_cons, if_pos (by simpa using hx)] at hd
      exact (List.nodup_cons.mp hd).2
    · obtain ⟨hmem, hs⟩ := List.mem_filter.mp hy
      have hyx := (hys y hmem).resolve_left (by simpa using hs)
      exact (hchild y hyx).2.2 (List.mem_filter.mp hy').1
  · rcases h.start with hs | hs
    · exact Or.inl (Set.mem_insert_of_mem x hs)
    · rcases List.mem_cons.mp hs with rfl | hs
      · exact Or.inl (Set.mem_insert a V)
      · exact Or.inr (List.mem_append_right ys hs)
  · intro p hp y hy
    rcases Set.mem_insert_iff.mp hp with rfl | hp
    · exact Or.inr (List.mem_append_left xs (hnext y hy))
    · rcases h.onward p hp y hy with hm | hm
      · exact Or.inl (Set.mem_insert_of_mem x hm)
      · rcases List.mem_cons.mp hm with rfl | hm
        · exact Or.inl (Set.mem_insert y V)
        · exact Or.inr (List.mem_append_right ys hm)

/-- At the beginning, the root is to come. -/
theorem visiting_start (hno : ∀ q ∈ Found next a, ¬skip q) : Visiting next a skip ∅ [a] := by
  refine ⟨Set.empty_subset _, fun x hx => ?_, fun x hx => absurd hx (Set.notMem_empty x), ?_,
    Or.inr List.mem_cons_self, fun p hp => absurd hp (Set.notMem_empty p)⟩
  · obtain rfl := List.mem_singleton.mp hx
    exact Or.inr ⟨Relation.ReflTransGen.refl, Set.notMem_empty x, Or.inl rfl⟩
  · exact (List.nodup_singleton a).filter _

/-- What looking at a new item of the tree does: it goes on with what comes from it, and
`I` goes on to hold. -/
def LooksThrough (look : Look E S γ) (next : γ → Set γ) (a : γ) (skip : γ → Prop)
    [DecidablePred skip] (I : Set γ → S → Prop) : Prop :=
  ∀ V x s, I V s → x ∈ Found next a → x ∉ V → ∃ ys s', look x s = (.ok ys, s') ∧
    I (insert x V) s' ∧ (∀ y ∈ ys, skip y ∨ y ∈ next x) ∧ (∀ y ∈ next x, y ∈ ys) ∧
      (ys.filter fun y => ¬skip y).Nodup

/-- **A tree is gone through to its end**, each of its items once. -/
theorem Visiting.exists_walk {look : Look E S γ} {I : Set γ → S → Prop} (ht : IsTree next a)
    (hno : ∀ q ∈ Found next a, ¬skip q) (hlook : LooksThrough look next a skip I)
    (hskip : ∀ V x s, I V s → skip x → ∃ s', look x s = (.ok [], s') ∧ I V s')
    (h : Visiting next a skip V xs) {s : S} (hs : I V s) :
    ∃ t, Walk look (fun _ _ => True) xs s t ∧ I (Found next a) t := by
  -- as many rounds as there are items to look at, and for each the items to skip
  induction hn : (Found next a \ V).ncard using Nat.strong_induction_on
    generalizing V xs s with
  | _ n ih =>
    induction xs generalizing s with
    | nil =>
      obtain rfl := h.eq_found
      exact ⟨s, .done s, hs⟩
    | cons x xs ih' =>
      by_cases hx : skip x
      · obtain ⟨s', hlook', hs'⟩ := hskip V x s hs hx
        obtain ⟨t, hwalk, ht'⟩ := ih' (h.skip_head hx hno) hs'
        exact ⟨t, .item trivial hlook' hwalk, ht'⟩
      · obtain ⟨hfound, hnew, -⟩ := (h.new x List.mem_cons_self).resolve_left hx
        obtain ⟨ys, s', hlook', hs', hys, hnext, hnodup⟩ := hlook V x s hs hfound hnew
        have hfewer : (Found next a \ insert x V).ncard < n := by
          rw [← hn]
          refine Set.ncard_lt_ncard ?_ (ht.finite.subset Set.sdiff_subset)
          refine (Set.ssubset_iff_of_subset ?_).mpr ⟨x, ⟨hfound, hnew⟩, ?_⟩
          · exact Set.sdiff_subset_sdiff_right (Set.subset_insert x V)
          · exact fun hm => hm.2 (Set.mem_insert x V)
        obtain ⟨t, hwalk, ht'⟩ := ih _ hfewer (h.look ht hx hno hys hnext hnodup) hs' rfl
        exact ⟨t, .item trivial hlook' hwalk, ht'⟩

end Tree

open Prog

/-- A program with a number of rounds that looks at an item and goes on with what is
found. -/
structure Recursion (exec : C → S → A × S) (look : Look E S γ) (visit : ℕ → γ → Prog C A E Unit) :
    Prop where
  /-- Without rounds it does not return. -/
  zero : ∀ x s t, (visit 0 x).run exec s ≠ (.ok (), t)
  /-- A round. -/
  succ : ∀ fuel x s, (visit (fuel + 1) x).run exec s =
    match look x s with
    | (.ok ys, s') => (each (visit fuel) ys).run exec s'
    | (.error e, s') => (.error e, s')

namespace Recursion

variable {exec : C → S → A × S} {look : Look E S γ} {visit : ℕ → γ → Prog C A E Unit}
  (h : Recursion exec look visit) {x : γ} {xs ys : List γ} {s t u : S} {fuel : ℕ}
include h

theorem run_of_ok {s' : S} (hlook : look x s = (.ok ys, s')) (fuel : ℕ) :
    (visit (fuel + 1) x).run exec s = (each (visit fuel) ys).run exec s' := by
  rw [h.succ, hlook]

/-- More rounds do the same. -/
theorem run_succ (hrun : (visit fuel x).run exec s = (.ok (), t)) :
    (visit (fuel + 1) x).run exec s = (.ok (), t) := by
  induction fuel generalizing x s t with
  | zero => exact absurd hrun (h.zero x s t)
  | succ fuel ih =>
    rw [h.succ] at hrun ⊢
    rcases hlook : look x s with ⟨e | ys, s'⟩
    · rw [hlook] at hrun
      exact absurd (Prod.mk.inj hrun).1 (by simp)
    · rw [hlook] at hrun
      exact run_each_mono (fun _ _ _ hx => ih hx) hrun

theorem run_of_le {n : ℕ} (hrun : (visit n x).run exec s = (.ok (), t)) (hle : n ≤ fuel) :
    (visit fuel x).run exec s = (.ok (), t) := by
  induction hle with
  | refl => exact hrun
  | step _ ih => exact h.run_succ ih

theorem run_each_succ (hrun : (each (visit fuel) xs).run exec s = (.ok (), t)) :
    (each (visit (fuel + 1)) xs).run exec s = (.ok (), t) :=
  run_each_mono (fun _ _ _ hx => h.run_succ hx) hrun

/-- **A run is a walk**: the items of the list are gone through, and others may come
behind them. -/
theorem walk_of_run (hrun : (each (visit fuel) xs).run exec s = (.ok (), t))
    (hrest : Walk look (fun _ _ => True) ys t u) :
    Walk look (fun _ _ => True) (xs ++ ys) s u := by
  induction fuel generalizing xs ys s t u with
  | zero =>
    rcases xs with _ | ⟨x, xs⟩
    · obtain ⟨-, rfl⟩ := Prod.mk.inj hrun
      exact hrest
    · obtain ⟨⟨⟩, s', hx, -⟩ := run_bind_ok exec hrun
      exact absurd hx (h.zero x s s')
  | succ fuel ih =>
    induction xs generalizing s with
    | nil =>
      obtain ⟨-, rfl⟩ := Prod.mk.inj hrun
      exact hrest
    | cons x xs ih' =>
      obtain ⟨⟨⟩, s', hx, hxs⟩ := run_bind_ok exec hrun
      rcases hlook : look x s with ⟨e | zs, s₁⟩
      · rw [h.succ, hlook] at hx
        exact absurd (Prod.mk.inj hx).1 (by simp)
      · rw [h.run_of_ok hlook] at hx
        exact .item trivial hlook (ih hx (ih' hxs))

/-- **A walk is a run** with rounds enough. -/
theorem run_of_walk {Q : γ → S → Prop} (hwalk : Walk look Q xs s t) :
    ∃ fuel, (each (visit fuel) xs).run exec s = (.ok (), t) := by
  induction hwalk with
  | done s => exact ⟨0, rfl⟩
  | item _ found _ ih =>
    obtain ⟨fuel, hrun⟩ := ih
    obtain ⟨s₁, hys, hxs⟩ := run_each_append.mp hrun
    have hxs' := h.run_each_succ hxs
    exact ⟨fuel + 1, (run_bind_of_ok exec ((h.run_of_ok found fuel).trans hys)).trans hxs'⟩

/-- The program comes to its end exactly when there is a walk to the end. -/
theorem run_iff : (∃ fuel, (each (visit fuel) xs).run exec s = (.ok (), t)) ↔
    Walk look (fun _ _ => True) xs s t := by
  refine ⟨fun ⟨fuel, hrun⟩ => ?_, h.run_of_walk⟩
  have hwalk := h.walk_of_run hrun (.done t)
  rwa [List.append_nil] at hwalk

end Recursion

/-! ### Weights -/

section Weight

variable {w : γ → ℕ} {A B : Set γ} {x y : γ}

/-- The sum of the weights of the elements of a finite set. -/
noncomputable def weight (w : γ → ℕ) (A : Set γ) : ℕ := ∑ᶠ x ∈ A, w x

theorem weight_mono (hA : A.Finite) (h : B ⊆ A) : weight w B ≤ weight w A := by
  rw [weight, weight, finsum_mem_eq_finite_toFinset_sum w hA,
    finsum_mem_eq_finite_toFinset_sum w (hA.subset h)]
  exact Finset.sum_le_sum_of_subset (Set.Finite.toFinset_subset_toFinset.mpr h)

theorem le_weight (hA : A.Finite) (hx : x ∈ A) : w x ≤ weight w A := by
  rw [weight, finsum_mem_eq_finite_toFinset_sum w hA]
  exact Finset.single_le_sum (fun y _ => Nat.zero_le (w y)) (hA.mem_toFinset.mpr hx)

theorem weight_insert (hA : A.Finite) (hx : x ∉ A) : weight w (insert x A) = w x + weight w A :=
  finsum_mem_insert w hx hA

/-- An element that goes makes the weight smaller, -/
theorem weight_lt (hA : A.Finite) (hx : x ∈ A) (hpos : 0 < w x) (h : B ⊆ A \ {x}) :
    weight w B < weight w A := by
  have hsplit := weight_insert (w := w) (hA.sdiff (t := {x})) (Set.notMem_sdiff_of_mem rfl)
  rw [Set.insert_sdiff_singleton, Set.insert_eq_of_mem hx] at hsplit
  have hle := weight_mono (w := w) hA.sdiff h
  omega

/-- also when a lighter one comes. -/
theorem weight_lt_of_lighter (hA : A.Finite) (hx : x ∈ A) (hlt : w y < w x)
    (h : B ⊆ insert y (A \ {x})) : weight w B < weight w A := by
  have hsplit := weight_insert (w := w) (hA.sdiff (t := {x})) (Set.notMem_sdiff_of_mem rfl)
  rw [Set.insert_sdiff_singleton, Set.insert_eq_of_mem hx] at hsplit
  have hle := weight_mono (w := w) (hA.sdiff.insert y) h
  by_cases hy : y ∈ A \ {x}
  · rw [Set.insert_eq_of_mem hy] at hle
    omega
  · rw [weight_insert hA.sdiff hy] at hle
    omega

end Weight

end Calls
