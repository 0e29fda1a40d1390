import PennCloud.Lib.Wire

/-!
# Where a tablet lives

Rows are hashed into tablets, and tablet `t` lives on the workers `t`, `t + 1`
and `t + 2`, counted cyclically from `1`. The same placement is computed in
several places, each time by its own arithmetic: a worker finds the slot a
tablet has in its memory (`PennCloud.getTabletNumberOnThisWorker`) and the
workers to replicate to (`PennCloud.getReplicasForReplication`), the coordinator
finds the workers to try for a tablet (`PennCloud.candidateIds`). This file
states them for any number `n ≥ 3` of tablets – the program has six – and proves
that they describe one placement:

* `PennCloud.getTabletNumberOnThisWorker_isSome_iff` – a worker has a slot for a
  tablet exactly when it is one of the candidates;
* `PennCloud.candidateIds_cases` – a candidate replicates to the candidates
  after it, in that order.
-/

namespace PennCloud

open Wire

/-- `NUM_TABLETS`. -/
def numTablets : ℕ := 6

/-- `hashToBucket`, for the hash function of the standard library: a number from
`1` to `numBuckets`. -/
def hashToBucket (hash : Bytes → UInt64) (input : Bytes) (numBuckets : ℕ) : ℕ :=
  (hash input).toNat % numBuckets + 1

/-- The tablet a row belongs to. -/
def tabletOf (hash : Bytes → UInt64) (row : Bytes) : ℕ := hashToBucket hash row numTablets

/-- `workerId - 1`, cyclically. -/
def prev1 (n workerId : ℕ) : ℕ := (workerId + n - 2) % n + 1

/-- `workerId - 2`, cyclically. -/
def prev2 (n workerId : ℕ) : ℕ := (workerId + n - 3) % n + 1

/-- `id + 1`, cyclically. -/
def next1 (n id : ℕ) : ℕ := id % n + 1

/-- `id + 2`, cyclically. -/
def next2 (n id : ℕ) : ℕ := (id + 1) % n + 1

/-- The slot of a tablet on a worker – tablet `1`, `2` or `3` of the worker is
slot `0`, `1` or `2` here – and `none` for `TABLET_NOT_FOUND`. -/
def getTabletNumberOnThisWorker (n workerId t : ℕ) : Option (Fin 3) :=
  if t = workerId then some 0
  else if t = prev1 n workerId then some 1
  else if t = prev2 n workerId then some 2
  else none

/-- The slot of tablet `t` on worker `id`, for a worker that holds it. -/
def Worker.slotOf (id t : ℕ) : Fin 3 := (getTabletNumberOnThisWorker numTablets id t).getD 0

/-- The workers an update of tablet `t` is replicated to by a worker. -/
def getReplicasForReplication (n workerId t : ℕ) : List ℕ :=
  if t = workerId then [next1 n workerId, next2 n workerId]
  else if t = prev1 n workerId then [next1 n workerId]
  else []

/-- The workers the coordinator tries for tablet `t`, in this order. -/
def candidateIds (n t : ℕ) : List ℕ := [t, next1 n t, next2 n t]

/-- A number of a worker, or of a tablet. -/
def IsId (n i : ℕ) : Prop := 1 ≤ i ∧ i ≤ n

instance (n i : ℕ) : Decidable (IsId n i) := inferInstanceAs (Decidable (1 ≤ i ∧ i ≤ n))

theorem isId_hashToBucket (hash : Bytes → UInt64) (input : Bytes) {n : ℕ} (hn : 0 < n) :
    IsId n (hashToBucket hash input n) := by
  have h := Nat.mod_lt (hash input).toNat hn
  rw [IsId, hashToBucket]
  omega

theorem isId_tabletOf (hash : Bytes → UInt64) (row : Bytes) : IsId numTablets (tabletOf hash row) :=
  isId_hashToBucket hash row (by decide)

/-! ### The cyclic arithmetic, spelt out -/

section Cyclic

variable {n w : ℕ}

theorem prev1_eq (hn : 3 ≤ n) (hw : IsId n w) : prev1 n w = if w = 1 then n else w - 1 := by
  obtain ⟨h1, h2⟩ := hw
  rw [prev1]
  split_ifs with h
  · rw [Nat.mod_eq_of_lt (by omega)]
    omega
  · rw [show w + n - 2 = w - 2 + n by omega, Nat.add_mod_right, Nat.mod_eq_of_lt (by omega)]
    omega

theorem prev2_eq (hn : 3 ≤ n) (hw : IsId n w) :
    prev2 n w = if w ≤ 2 then w + n - 2 else w - 2 := by
  obtain ⟨h1, h2⟩ := hw
  rw [prev2]
  split_ifs with h
  · rw [Nat.mod_eq_of_lt (by omega)]
    omega
  · rw [show w + n - 3 = w - 3 + n by omega, Nat.add_mod_right, Nat.mod_eq_of_lt (by omega)]
    omega

/-- Two steps down are one step down twice. -/
theorem prev1_prev1 (hn : 3 ≤ n) (hw : IsId n w) : prev1 n (prev1 n w) = prev2 n w := by
  have h1 := prev1_eq hn hw
  have h2 := prev2_eq hn hw
  have hp : IsId n (prev1 n w) := by
    obtain ⟨ha, hb⟩ := hw
    rw [IsId, h1]
    split_ifs <;> omega
  obtain ⟨ha, hb⟩ := hw
  rw [prev1_eq hn hp, h2, h1]
  split_ifs <;> omega

theorem next1_eq (hw : IsId n w) : next1 n w = if w = n then 1 else w + 1 := by
  obtain ⟨h1, h2⟩ := hw
  rw [next1]
  split_ifs with h
  · rw [h, Nat.mod_self]
  · rw [Nat.mod_eq_of_lt (by omega)]

theorem next2_eq (hn : 3 ≤ n) (hw : IsId n w) :
    next2 n w = if w + 1 < n then w + 2 else w + 2 - n := by
  obtain ⟨h1, h2⟩ := hw
  rw [next2]
  split_ifs with h
  · rw [Nat.mod_eq_of_lt h]
  · rw [show w + 1 = w + 1 - n + n by omega, Nat.add_mod_right, Nat.mod_eq_of_lt (by omega)]
    omega

end Cyclic

/-! ### One placement -/

section Placement

variable {n t w : ℕ}

theorem isId_of_mem_candidateIds (hn : 3 ≤ n) (ht : IsId n t) (h : w ∈ candidateIds n t) :
    IsId n w := by
  have h1 := next1_eq ht
  have h2 := next2_eq hn ht
  obtain ⟨ha, hb⟩ := ht
  simp only [candidateIds, List.mem_cons, List.not_mem_nil, or_false] at h
  rw [IsId]
  rcases h with rfl | rfl | rfl
  · omega
  · rw [h1]
    split_ifs <;> omega
  · rw [h2]
    split_ifs <;> omega

/-- A candidate for a tablet of the program is one of its workers. -/
theorem isId_candidate (ht : IsId numTablets t) (h : w ∈ candidateIds numTablets t) :
    IsId numTablets w :=
  isId_of_mem_candidateIds (by decide) ht h

/-- **A worker stores the tablets it is a candidate for.** -/
theorem getTabletNumberOnThisWorker_isSome_iff (hn : 3 ≤ n) (ht : IsId n t) (hw : IsId n w) :
    (getTabletNumberOnThisWorker n w t).isSome ↔ w ∈ candidateIds n t := by
  have hslot : (getTabletNumberOnThisWorker n w t).isSome ↔
      t = w ∨ t = prev1 n w ∨ t = prev2 n w := by
    rw [getTabletNumberOnThisWorker]
    split_ifs <;> simp_all
  rw [hslot, prev1_eq hn hw, prev2_eq hn hw]
  simp only [candidateIds, List.mem_cons, List.not_mem_nil, or_false, next1_eq ht, next2_eq hn ht]
  obtain ⟨hw1, hw2⟩ := hw
  obtain ⟨ht1, ht2⟩ := ht
  split_ifs <;> omega

/-- The tablet a slot of a worker is for. -/
def storedTablet (n workerId : ℕ) : Fin 3 → ℕ
  | 0 => workerId
  | 1 => prev1 n workerId
  | 2 => prev2 n workerId

theorem isId_storedTablet {w : ℕ} (hw : IsId numTablets w) (i : Fin 3) :
    IsId numTablets (storedTablet numTablets w i) := by
  have hid : ∀ a : ℕ, IsId numTablets (a % numTablets + 1) := by
    intro a
    have hlt := Nat.mod_lt a (show 0 < numTablets by decide)
    rw [IsId]
    omega
  match i with
  | 0 => exact hw
  | 1 => exact hid _
  | 2 => exact hid _

theorem eq_storedTablet {i : Fin 3} (h : getTabletNumberOnThisWorker n w t = some i) :
    t = storedTablet n w i := by
  rw [getTabletNumberOnThisWorker] at h
  split_ifs at h with h1 h2 h3
  · obtain rfl := Option.some.inj h
    exact h1
  · obtain rfl := Option.some.inj h
    exact h2
  · obtain rfl := Option.some.inj h
    exact h3

/-- The three slots of a worker are for three tablets. -/
theorem getTabletNumberOnThisWorker_storedTablet (hn : 3 ≤ n) (hw : IsId n w) (i : Fin 3) :
    getTabletNumberOnThisWorker n w (storedTablet n w i) = some i := by
  have h1 := prev1_eq hn hw
  have h2 := prev2_eq hn hw
  obtain ⟨hw1, hw2⟩ := hw
  have hne1 : prev1 n w ≠ w := by
    rw [h1]
    split_ifs <;> omega
  have hne2 : prev2 n w ≠ w := by
    rw [h2]
    split_ifs <;> omega
  have hne12 : prev2 n w ≠ prev1 n w := by
    rw [h1, h2]
    split_ifs <;> omega
  match i with
  | 0 => simp [getTabletNumberOnThisWorker, storedTablet]
  | 1 => simp [getTabletNumberOnThisWorker, storedTablet, hne1]
  | 2 => simp [getTabletNumberOnThisWorker, storedTablet, hne2, hne12]

/-- **A candidate replicates to the candidates after it.** -/
theorem candidateIds_cases (hn : 3 ≤ n) (ht : IsId n t) (h : w ∈ candidateIds n t) :
    (w = t ∧ getReplicasForReplication n w t = [next1 n t, next2 n t]) ∨
      (w = next1 n t ∧ getReplicasForReplication n w t = [next2 n t]) ∨
      (w = next2 n t ∧ getReplicasForReplication n w t = []) := by
  have hw := isId_of_mem_candidateIds hn ht h
  have h1 := next1_eq ht
  have h2 := next2_eq hn ht
  have h1' := next1_eq hw
  have hp := prev1_eq hn hw
  obtain ⟨ht1, ht2⟩ := ht
  obtain ⟨hw1, hw2⟩ := hw
  simp only [candidateIds, List.mem_cons, List.not_mem_nil, or_false] at h
  rcases h with rfl | h | h
  · exact Or.inl ⟨rfl, by rw [getReplicasForReplication, if_pos rfl]⟩
  · have hne : t ≠ w := by
      rw [h, h1]
      split_ifs <;> omega
    have hprev : t = prev1 n w := by
      rw [hp, h, h1]
      split_ifs <;> omega
    have hnext : next1 n w = next2 n t := by
      rw [h1', h2, h, h1]
      split_ifs <;> omega
    exact Or.inr (Or.inl ⟨h, by rw [getReplicasForReplication, if_neg hne, if_pos hprev, hnext]⟩)
  · have hne : t ≠ w := by
      rw [h, h2]
      split_ifs <;> omega
    have hprev : t ≠ prev1 n w := by
      rw [hp, h, h2]
      split_ifs <;> omega
    exact Or.inr (Or.inr ⟨h, by rw [getReplicasForReplication, if_neg hne, if_neg hprev]⟩)

/-- The three candidates are three workers. -/
theorem nodup_candidateIds (hn : 3 ≤ n) (ht : IsId n t) : (candidateIds n t).Nodup := by
  have h1 := next1_eq ht
  have h2 := next2_eq hn ht
  obtain ⟨ht1, ht2⟩ := ht
  have hne1 : t ≠ next1 n t := by
    rw [h1]
    split_ifs <;> omega
  have hne2 : t ≠ next2 n t := by
    rw [h2]
    split_ifs <;> omega
  have hne12 : next1 n t ≠ next2 n t := by
    rw [h1, h2]
    split_ifs <;> omega
  simp [candidateIds, hne1, hne2, hne12]

end Placement

/-! ### Addresses -/

/-- The address worker `id` listens on. -/
def address (id : ℕ) : Bytes := ascii "127.0.0.1" ++ ascii ":" ++ ascii (toString (10000 + id))

/-- The numbers of the workers. -/
def workerIds : List ℕ := [1, 2, 3, 4, 5, 6]

theorem mem_workerIds {i : ℕ} : i ∈ workerIds ↔ IsId numTablets i := by
  simp only [workerIds, IsId, numTablets, List.mem_cons, List.not_mem_nil, or_false]
  omega

theorem address_injOn : ∀ i ∈ workerIds, ∀ j ∈ workerIds, address i = address j → i = j := by
  decide

end PennCloud
