import Mathlib.Data.Nat.Nth
import Mathlib.Data.Nat.Periodic
import Mathlib.Data.Int.CardIntervalMod

/-!
# Taking turns

Some of the places `0, …, N - 1` are *live*, and a pointer goes round them: from where
it stands the next live place has its turn (`RoundRobin.Selects`), and the pointer is
put behind it. A place that is not live is skipped without being counted, so the pointer
says little about how many turns there have been; what does is the number of live places
below it, `Nat.count live`, which goes up by one with every turn, modulo the number of
all of them (`RoundRobin.Selects.count_modEq`, `RoundRobin.count_behind_modEq`).

* `RoundRobin.Turns.getElem` – the turns go through the live places in cyclic order.
* `RoundRobin.Turns.count_eq` – in `m` times as many turns as there are live places,
  each of them has `m`.
-/

namespace RoundRobin

variable {live : ℕ → Prop} {N : ℕ}

/-- With the pointer at `p`, the place `s` has its turn. -/
def Selects (live : ℕ → Prop) (N p s : ℕ) : Prop :=
  ∃ i < N, s = (p + i) % N ∧ live s ∧ ∀ j < i, ¬live ((p + j) % N)

/-- The places that have their turns, the pointer being put behind each of them. -/
def Turns (live : ℕ → Prop) (N : ℕ) : ℕ → List ℕ → Prop
  | _, [] => True
  | p, s :: l => Selects live N p s ∧ Turns live N ((s + 1) % N) l

/-! ### One turn -/

/-- While there is a live place, somebody has his turn. -/
theorem exists_selects {f : ℕ} (hf : f < N) (hlive : live f) (p : ℕ) :
    ∃ s, Selects live N p s := by
  classical
  have hN : 0 < N := by omega
  have hex : ∃ i, live ((p + i) % N) := by
    refine ⟨f + N - p % N, ?_⟩
    have hlt := Nat.mod_lt p hN
    have hsum : p + (f + N - p % N) = f + N * (p / N + 1) := by
      have hdiv := Nat.div_add_mod p N
      rw [mul_add, mul_one]
      omega
    rwa [hsum, Nat.add_mul_mod_self_left, Nat.mod_eq_of_lt hf]
  refine ⟨(p + Nat.find hex) % N, Nat.find hex, ?_, rfl, Nat.find_spec hex,
    fun j hj => Nat.find_min hex hj⟩
  -- the places repeat after `N` steps
  by_contra hge
  have hback : (p + (Nat.find hex - N)) % N = (p + Nat.find hex) % N := by
    rw [← Nat.add_mod_right (p + (Nat.find hex - N)), add_assoc, Nat.sub_add_cancel (by omega)]
  exact Nat.find_min hex (m := Nat.find hex - N) (by omega) (hback ▸ Nat.find_spec hex)

theorem Selects.lt {p s : ℕ} (h : Selects live N p s) : s < N := by
  obtain ⟨i, hi, rfl, -⟩ := h
  exact Nat.mod_lt _ (by omega)

theorem Selects.isLive {p s : ℕ} (h : Selects live N p s) : live s := by
  obtain ⟨i, -, -, hlive, -⟩ := h
  exact hlive

variable [DecidablePred live]

/-- No live place is passed over: below the one that has its turn there are as many as
below the pointer, up to a round. -/
theorem Selects.count_modEq {p s : ℕ} (h : Selects live N p s) :
    Nat.count live s ≡ Nat.count live (p % N) [MOD Nat.count live N] := by
  obtain ⟨i, hi, hs, -, hskip⟩ := h
  have hp := Nat.mod_lt p (show 0 < N by omega)
  have hplace : ∀ j, (p + j) % N = (p % N + j) % N := fun j => (Nat.mod_add_mod p N j).symm
  rw [hplace] at hs
  rcases Nat.lt_or_ge (p % N + i) N with hlt | hge
  · have hnone : Nat.count (fun k => live (p % N + k)) i = 0 := by
      refine Nat.count_iff_forall_not.mpr fun j hj => ?_
      have hj' := hskip j hj
      rwa [hplace, Nat.mod_eq_of_lt (by omega)] at hj'
    rw [hs, Nat.mod_eq_of_lt hlt, Nat.count_add, hnone, add_zero]
  · -- the pointer goes past the end, and the places from there on are not live
    have hs' : s = p % N + i - N := by
      rw [hs, Nat.mod_eq_sub_mod hge, Nat.mod_eq_of_lt (by omega)]
    have hnone : Nat.count (fun k => live (p % N + k)) (N - p % N) = 0 := by
      refine Nat.count_iff_forall_not.mpr fun j hj => ?_
      have hj' := hskip j (by omega)
      rwa [hplace, Nat.mod_eq_of_lt (by omega)] at hj'
    have hall : Nat.count live N = Nat.count live (p % N) := by
      have hsum := Nat.count_add live (p % N) (N - p % N)
      rwa [Nat.add_sub_cancel' hp.le, hnone, add_zero] at hsum
    have hzero : Nat.count live s = 0 := by
      refine Nat.count_iff_forall_not.mpr fun k hk => ?_
      have hk' := hskip (k + N - p % N) (by omega)
      rwa [hplace, Nat.add_sub_cancel' (by omega), Nat.add_mod_right,
        Nat.mod_eq_of_lt (by omega)] at hk'
    rw [hzero, ← hall]
    exact (Nat.modEq_zero_iff_dvd.mpr dvd_rfl).symm

/-- Behind a live place there is one more. -/
theorem count_behind_modEq {s : ℕ} (hs : s < N) (hlive : live s) :
    Nat.count live ((s + 1) % N) ≡ Nat.count live s + 1 [MOD Nat.count live N] := by
  have hsucc : Nat.count live (s + 1) = Nat.count live s + 1 :=
    Nat.count_succ_eq_succ_count_iff.mpr hlive
  rcases Nat.lt_or_ge (s + 1) N with hlt | hge
  · rw [Nat.mod_eq_of_lt hlt, hsucc]
  · obtain rfl : N = s + 1 := by omega
    rw [Nat.mod_self, Nat.count_zero, ← hsucc]
    exact (Nat.modEq_zero_iff_dvd.mpr dvd_rfl).symm

/-! ### Many turns -/

/-- **The turns go through the live places in cyclic order.** -/
theorem Turns.getElem {p : ℕ} {l : List ℕ} (h : Turns live N p l) (k : ℕ) (hk : k < l.length) :
    l[k] = Nat.nth live ((Nat.count live (p % N) + k) % Nat.count live N) := by
  induction l generalizing p k with
  | nil => simp at hk
  | cons s l ih =>
    obtain ⟨hs, hl⟩ := h
    cases k with
    | zero =>
      have hlt := Nat.count_strict_mono hs.isLive hs.lt
      rw [List.getElem_cons_zero, add_zero, ← hs.count_modEq, Nat.mod_eq_of_lt hlt,
        Nat.nth_count hs.isLive]
    | succ k =>
      have hbehind : Nat.count live ((s + 1) % N) + k ≡
          Nat.count live (p % N) + (k + 1) [MOD Nat.count live N] := by
        have h1 := (count_behind_modEq hs.lt hs.isLive).trans (hs.count_modEq.add_right 1)
        have h2 := h1.add_right k
        rwa [add_assoc, add_comm 1 k] at h2
      rw [List.getElem_cons_succ, ih hl k (Nat.lt_of_succ_lt_succ hk), Nat.mod_mod, hbehind]

theorem count_map_range (g : ℕ → ℕ) (f M : ℕ) :
    ((List.range M).map g).count f = Nat.count (fun k => g k = f) M := by
  induction M with
  | zero => rfl
  | succ M ih =>
    rw [List.range_succ, List.map_append, List.count_append, ih, Nat.count_succ, List.map_singleton,
      List.count_singleton]
    simp only [beq_iff_eq]

/-- Of `m * r` consecutive numbers, `m` have a given remainder. -/
theorem count_add_modEq {r : ℕ} (hr : 0 < r) (m c v : ℕ) :
    Nat.count (fun k => c + k ≡ v [MOD r]) (m * r) = m := by
  have hsum := Nat.count_add (· ≡ v [MOD r]) c (m * r)
  rw [Nat.count_modEq_card _ hr, Nat.count_modEq_card _ hr, Nat.add_mul_div_right _ _ hr,
    Nat.add_mul_mod_self_right] at hsum
  omega

/-- **Everybody has the same number of turns.** -/
theorem Turns.count_eq {p : ℕ} {l : List ℕ} (h : Turns live N p l) {m : ℕ}
    (hlen : l.length = m * Nat.count live N) {f : ℕ} (hf : f < N) (hlive : live f) :
    l.count f = m := by
  have hlt := Nat.count_strict_mono hlive hf
  have hl : l = (List.range (m * Nat.count live N)).map fun k =>
      Nat.nth live ((Nat.count live (p % N) + k) % Nat.count live N) := by
    refine List.ext_getElem (by simp [hlen]) fun k hk _ => ?_
    rw [h.getElem k hk]
    simp
  have hturn : ∀ k, Nat.nth live ((Nat.count live (p % N) + k) % Nat.count live N) = f ↔
      Nat.count live (p % N) + k ≡ Nat.count live f [MOD Nat.count live N] := by
    intro k
    have hlt' := Nat.mod_lt (Nat.count live (p % N) + k) (show 0 < Nat.count live N by omega)
    rw [Nat.ModEq, Nat.mod_eq_of_lt hlt]
    constructor
    · intro hnth
      rw [← hnth, Nat.count_nth]
      exact fun hfin => hlt'.trans_le (Nat.count_le_card hfin N)
    · intro hcount
      rw [hcount, Nat.nth_count hlive]
  rw [hl, count_map_range]
  simp only [hturn]
  exact count_add_modEq (by omega) m _ _

end RoundRobin
