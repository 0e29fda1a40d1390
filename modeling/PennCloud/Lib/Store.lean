import Mathlib.Data.List.Basic
import Mathlib.Logic.Function.Basic

/-!
# Stores and the commands that write them

A **store** is a partial function from keys to values, and three commands write
it: an unconditional `put`, a `delete`, and a `cput` that replaces the value of
its key only when that value is the one it expects. A command that is refused
makes the whole sequence fail, which is what replaying a log does.

Everything here is about sequences of commands read as a log.

* `KeyValue.exec_move_front` – commands on different keys commute, so a command
  may be pulled in front of commands that do not touch its key. This is the one
  fact behind delivering a log out of order.
* `KeyValue.exec_eq_some_iff` – a sequence acts on each key on its own, through
  the commands on that key.
* `KeyValue.exec_empty_of_blind` and `KeyValue.exec_twice_iff` – what happens when a
  log is replayed over the wrong base: over the empty store, or over the very
  store it leads to. Both answers only look at the *first* command on each key:
  a blind one (`put`, `delete`) forgets the base, a `cput` reads it.
-/

namespace KeyValue

variable {K V : Type*}

/-- The contents of a store: a value, or nothing, under every key. -/
abbrev Store (K V : Type*) := K → Option V

/-- One store within another: what the first one holds, the second one holds. -/
def Within (s t : Store K V) : Prop := ∀ k v, s k = some v → t k = some v

theorem Within.refl (s : Store K V) : Within s s := fun _ _ h => h

theorem Within.trans {s t r : Store K V} (h : Within s t) (h' : Within t r) : Within s r :=
  fun k v hk => h' k v (h k v hk)

theorem Within.antisymm {s t : Store K V} (h : Within s t) (h' : Within t s) : s = t := by
  funext k
  rcases hs : s k with _ | v
  · rcases ht : t k with _ | v
    · rfl
    · exact absurd (h' k v ht) (by simp [hs])
  · exact (h k v hs).symm

/-- A command on a store. -/
inductive Cmd (K V : Type*) where
  /-- Write a value, whatever is there. -/
  | put : K → V → Cmd K V
  /-- Replace the first value by the second one; refused when the first is not there. -/
  | cput : K → V → V → Cmd K V
  /-- Remove the value, if there is one. -/
  | delete : K → Cmd K V

/-- The key a command is about. -/
def Cmd.key : Cmd K V → K
  | .put k _ => k
  | .cput k _ _ => k
  | .delete k => k

/-- A **blind** command does not read the value it replaces. -/
def Cmd.Blind : Cmd K V → Prop
  | .put _ _ => True
  | .cput _ _ _ => False
  | .delete _ => True

variable [DecidableEq V]

/-- What a command makes of the value under its own key, `none` when it is
refused. -/
def Cmd.act : Cmd K V → Option V → Option (Option V)
  | .put _ v, _ => some (some v)
  | .cput _ old new, x => if x = some old then some (some new) else none
  | .delete _, _ => some none

theorem Cmd.act_of_blind {c : Cmd K V} (h : c.Blind) (x y : Option V) : c.act x = c.act y := by
  cases c with
  | put k v => rfl
  | cput k old new => exact absurd h not_false
  | delete k => rfl

variable [DecidableEq K]

/-- One command on a store: only the value under its key changes. -/
def Cmd.exec (c : Cmd K V) (s : Store K V) : Option (Store K V) :=
  (c.act (s c.key)).map (Function.update s c.key)

/-- A sequence of commands, stopped by the first one that is refused. -/
def exec : List (Cmd K V) → Store K V → Option (Store K V)
  | [], s => some s
  | c :: cs, s => (c.exec s).bind (exec cs)

@[simp] theorem exec_nil (s : Store K V) : exec [] s = some s := rfl

@[simp] theorem exec_cons (c : Cmd K V) (cs : List (Cmd K V)) (s : Store K V) :
    exec (c :: cs) s = (c.exec s).bind (exec cs) := rfl

theorem exec_append (l l' : List (Cmd K V)) (s : Store K V) :
    exec (l ++ l') s = (exec l s).bind (exec l') := by
  induction l generalizing s with
  | nil => rfl
  | cons c l ih =>
    simp only [List.cons_append, exec_cons, Option.bind_assoc]
    exact congrArg _ (funext ih)

/-- A command leaves the other keys alone. -/
theorem Cmd.exec_of_ne {c : Cmd K V} {s s' : Store K V} (h : c.exec s = some s') {k : K}
    (hk : k ≠ c.key) : s' k = s k := by
  obtain ⟨y, -, rfl⟩ := Option.map_eq_some_iff.mp h
  exact Function.update_of_ne hk _ _

/-- A command does to its own key what it says. -/
theorem Cmd.exec_self {c : Cmd K V} {s s' : Store K V} (h : c.exec s = some s') :
    c.act (s c.key) = some (s' c.key) := by
  obtain ⟨y, hy, rfl⟩ := Option.map_eq_some_iff.mp h
  rw [hy, Function.update_self]

/-! ### Commands on different keys -/

/-- **Commands on different keys commute**, refusals included. -/
theorem Cmd.exec_comm {c d : Cmd K V} (h : c.key ≠ d.key) (s : Store K V) :
    (c.exec s).bind d.exec = (d.exec s).bind c.exec := by
  rcases hc : c.act (s c.key) with _ | x <;> rcases hd : d.act (s d.key) with _ | y
  · simp [Cmd.exec, hc, hd]
  · simp [Cmd.exec, hc, hd, Function.update_of_ne h]
  · simp [Cmd.exec, hc, hd, Function.update_of_ne h.symm]
  · simp [Cmd.exec, hc, hd, Function.update_of_ne h, Function.update_of_ne h.symm,
      Function.update_comm h]

/-- **A command may overtake the commands on other keys in front of it.** -/
theorem exec_move_front {c : Cmd K V} (l l' : List (Cmd K V)) (h : ∀ d ∈ l, d.key ≠ c.key)
    (s : Store K V) : exec (l ++ c :: l') s = exec (c :: (l ++ l')) s := by
  induction l generalizing s with
  | nil => rfl
  | cons d l ih =>
    have hd : d.key ≠ c.key := h d (List.mem_cons_self)
    have hl : ∀ e ∈ l, e.key ≠ c.key := fun e he => h e (List.mem_cons_of_mem d he)
    calc exec (d :: l ++ c :: l') s
        = (d.exec s).bind fun t => (c.exec t).bind (exec (l ++ l')) := by
          simp only [List.cons_append, exec_cons]
          exact congrArg _ (funext (ih hl))
      _ = ((d.exec s).bind c.exec).bind (exec (l ++ l')) := (Option.bind_assoc _ _ _).symm
      _ = ((c.exec s).bind d.exec).bind (exec (l ++ l')) := by rw [Cmd.exec_comm hd]
      _ = exec (c :: (d :: l ++ l')) s := by
          simp only [List.cons_append, exec_cons, Option.bind_assoc]
          rfl

/-! ### One key at a time -/

/-- What a sequence of commands, read as commands on one key, makes of its
value. -/
def actAll : List (Cmd K V) → Option V → Option (Option V)
  | [], x => some x
  | c :: cs, x => (c.act x).bind (actAll cs)

/-- The commands of a sequence on one key. -/
def on (k : K) (l : List (Cmd K V)) : List (Cmd K V) := l.filter fun c => c.key = k

omit [DecidableEq V] in
theorem on_cons_self (c : Cmd K V) (l : List (Cmd K V)) : on c.key (c :: l) = c :: on c.key l := by
  simp [on]

omit [DecidableEq V] in
theorem on_cons_of_ne {k : K} {c : Cmd K V} (h : k ≠ c.key) (l : List (Cmd K V)) :
    on k (c :: l) = on k l := by
  simp [on, Ne.symm h]

/-- **A sequence acts on every key through the commands on that key**, and
succeeds when it does so on all of them. -/
theorem exec_eq_some_iff (l : List (Cmd K V)) (s s' : Store K V) :
    exec l s = some s' ↔ ∀ k, actAll (on k l) (s k) = some (s' k) := by
  induction l generalizing s with
  | nil => simp [on, actAll, funext_iff]
  | cons c l ih =>
    constructor
    · intro h k
      obtain ⟨t, ht, hrest⟩ := Option.bind_eq_some_iff.mp h
      have hk := (ih t).mp hrest k
      rcases eq_or_ne k c.key with rfl | hne
      · rw [on_cons_self, actAll, Cmd.exec_self ht]
        exact hk
      · rw [on_cons_of_ne hne, ← Cmd.exec_of_ne ht hne]
        exact hk
    · intro h
      have hc := h c.key
      rw [on_cons_self] at hc
      obtain ⟨y, hy, hrest⟩ := Option.bind_eq_some_iff.mp hc
      have hexec : c.exec s = some (Function.update s c.key y) := by simp [Cmd.exec, hy]
      rw [exec_cons, hexec, Option.bind_some]
      refine (ih _).mpr fun k => ?_
      rcases eq_or_ne k c.key with rfl | hne
      · rw [Function.update_self]
        exact hrest
      · rw [Function.update_of_ne hne, ← on_cons_of_ne hne l]
        exact h k

/-- The first command of a sequence on a key, if there is one. -/
def first (k : K) (l : List (Cmd K V)) : Option (Cmd K V) := (on k l).head?

omit [DecidableEq V] in
theorem on_eq_nil {k : K} {l : List (Cmd K V)} (h : first k l = none) : on k l = [] :=
  List.head?_eq_none_iff.mp h

omit [DecidableEq V] in
theorem on_eq_cons {k : K} {l : List (Cmd K V)} {c : Cmd K V} (h : first k l = some c) :
    on k l = c :: (on k l).tail :=
  (List.cons_head?_tail (Option.mem_def.mpr h)).symm

omit [DecidableEq V] in
/-- A key no command of a sequence is first on is the key of none of them. -/
theorem key_ne_of_first_none {k : K} {l : List (Cmd K V)} (h : first k l = none) {c : Cmd K V}
    (hc : c ∈ l) : c.key ≠ k := by
  intro hk
  have hmem : c ∈ on k l := List.mem_filter.mpr ⟨hc, by simpa using hk⟩
  rw [on_eq_nil h] at hmem
  exact absurd hmem List.not_mem_nil

omit [DecidableEq K] in
/-- After a blind first command the base does not matter. -/
theorem actAll_of_blind {c : Cmd K V} (h : c.Blind) (l : List (Cmd K V)) (x y : Option V) :
    actAll (c :: l) x = actAll (c :: l) y := by
  rw [actAll, actAll, Cmd.act_of_blind h x y]

omit [DecidableEq K] in
/-- A first command that is not blind is a `cput`, and succeeds only on the
value it expects. -/
theorem eq_of_actAll_cput {k : K} {old new : V} {l : List (Cmd K V)} {x y : Option V}
    (h : actAll (Cmd.cput k old new :: l) x = some y) : x = some old := by
  obtain ⟨z, hz, -⟩ := Option.bind_eq_some_iff.mp h
  by_contra hne
  simp [Cmd.act, hne] at hz

/-! ### Replaying a log over the wrong base -/

/-- A sequence leaves the keys it does not touch alone. -/
theorem exec_untouched {l : List (Cmd K V)} {b s : Store K V} (h : exec l b = some s) {k : K}
    (hk : first k l = none) : s k = b k := by
  have hsk := (exec_eq_some_iff _ _ _).mp h k
  rw [on_eq_nil hk] at hsk
  exact (Option.some.inj hsk).symm

/-- **Replaying a log over the empty store** instead of the base `b` it was
written on gives the same store when every key of the base is first written
blindly. -/
theorem exec_empty_of_blind {l : List (Cmd K V)} {b s : Store K V} (h : exec l b = some s)
    (hblind : ∀ k, b k ≠ none → ∃ c, first k l = some c ∧ c.Blind) :
    exec l (fun _ => none) = some s := by
  have hs := (exec_eq_some_iff _ _ _).mp h
  refine (exec_eq_some_iff _ _ _).mpr fun k => ?_
  rcases hb : b k with _ | v
  · rw [← hb]
    exact hs k
  · obtain ⟨c, hf, hc⟩ := hblind k (by simp [hb])
    rw [on_eq_cons hf, actAll_of_blind hc _ none (b k), ← on_eq_cons hf]
    exact hs k

/-- And only then: where a key of the base is not first written blindly, the
replay fails or leaves the key out, so it leads to no store that agrees with `b`
on the keys the log does not touch. -/
theorem blind_of_exec_empty {l : List (Cmd K V)} {b r : Store K V}
    (hr : exec l (fun _ => none) = some r) (hagree : ∀ k, first k l = none → r k = b k) {k : K}
    (hk : b k ≠ none) : ∃ c, first k l = some c ∧ c.Blind := by
  have hrk := (exec_eq_some_iff _ _ _).mp hr k
  rcases hf : first k l with _ | c
  · exact absurd ((hagree k hf).symm.trans (exec_untouched hr hf)) hk
  · refine ⟨c, rfl, ?_⟩
    rw [on_eq_cons hf] at hrk
    cases c with
    | put k' v => trivial
    | cput k' old new => exact absurd (eq_of_actAll_cput hrk) (by simp)
    | delete k' => trivial

/-- **Replaying a log over the store it leads to** succeeds exactly when every
key whose first command is a `cput` ends with the value that `cput` expects; the
store is then left as it is. -/
theorem exec_twice_iff {l : List (Cmd K V)} {b s : Store K V} (h : exec l b = some s) :
    exec l s = some s ↔ ∀ k old new, first k l = some (.cput k old new) → s k = some old := by
  have hs := (exec_eq_some_iff _ _ _).mp h
  constructor
  · intro htwice k old new hf
    have hk := (exec_eq_some_iff _ _ _).mp htwice k
    rw [on_eq_cons hf] at hk
    exact eq_of_actAll_cput hk
  · intro hend
    refine (exec_eq_some_iff _ _ _).mpr fun k => ?_
    rcases hf : first k l with _ | c
    · rw [on_eq_nil hf]
      rfl
    · have hmem : c ∈ on k l := by
        rw [on_eq_cons hf]
        exact List.mem_cons_self
      have hkey : c.key = k := by simpa using (List.mem_filter.mp hmem).2
      have hsk := hs k
      rw [on_eq_cons hf] at hsk ⊢
      rcases hc : c with ⟨k', v⟩ | ⟨k', old, new⟩ | ⟨k'⟩
      · rw [← hc, actAll_of_blind (c := c) (by simp [hc, Cmd.Blind]) _ (s k) (b k)]
        exact hsk
      · obtain rfl : k' = k := by rw [← hkey, hc, Cmd.key]
        rw [hc] at hsk hf
        have hbase : b k' = s k' := (eq_of_actAll_cput hsk).trans (hend k' old new hf).symm
        rw [← hbase]
        exact hbase ▸ hsk
      · rw [← hc, actAll_of_blind (c := c) (by simp [hc, Cmd.Blind]) _ (s k) (b k)]
        exact hsk

/-- A replay over the store a log leads to that succeeds at all succeeds as in
`KeyValue.exec_twice_iff`. -/
theorem exec_twice_of_isSome {l : List (Cmd K V)} {b s : Store K V} (h : exec l b = some s)
    {r : Store K V} (hr : exec l s = some r) : exec l s = some s := by
  refine (exec_twice_iff h).mpr fun k old new hf => ?_
  have hk := (exec_eq_some_iff _ _ _).mp hr k
  rw [on_eq_cons hf] at hk
  exact eq_of_actAll_cput hk

end KeyValue
