import PennCloud.Backend.Recovery
import PennCloud.Lib.Text

/-!
# Placement, routing and recovery, for any number of tablets

The ring `1, …, n` is walked in both directions and in two programs: the coordinator
goes up from a tablet to the workers that have it (`Lookup`, `getCurrentPrimary`) and
down from a worker to its tablets (`WorkerLookup`), the worker goes down once for the
place of a tablet in memory and once more, step by step, when it recovers, and up to the
workers it replicates to. The program has six tablets; here `n` is any number from three
on, and the functions of the coordinator and of the recovery are given for it.

`PennCloud.indicesAgree` says that they all speak of one placement,
`PennCloud.IndicesAgree`, in which the three workers of a tablet do not coincide. Three
tablets are the least for which they do not.
-/

namespace PennCloud

open Wire Text

/-! ### The functions, for `n` tablets -/

section Functions

variable (n : ℕ)

/-- The worker `Lookup` finds for a tablet. -/
def lookupWorker (isAlive : ℕ → Bool) (tablet : ℕ) : Option ℕ :=
  if isAlive tablet then some tablet
  else if isAlive (tablet % n + 1) then some (tablet % n + 1)
  else if isAlive ((tablet + 1) % n + 1) then some ((tablet + 1) % n + 1)
  else none

/-- `getCurrentPrimary`. -/
def currentPrimary (isAlive : ℕ → Bool) (tabletId : ℕ) : Bytes :=
  match [tabletId, tabletId % n + 1, (tabletId + 1) % n + 1].find? isAlive with
  | none => allDead
  | some candidate => address candidate

/-- The tablets `WorkerLookup` asks `getCurrentPrimary` for. -/
def lookupTablets (workerId : ℕ) : List ℕ :=
  [workerId, (workerId + n - 2) % n + 1, (workerId + n - 3) % n + 1]

/-- `WorkerLookup`, with the map of live workers at each of the three answers. -/
def lookupAnswers (isAlive₁ isAlive₂ isAlive₃ : ℕ → Bool) (workerId : ℕ) : List Bytes :=
  let secondaryId := (workerId + n - 2) % n + 1
  let tertiaryId := (workerId + n - 3) % n + 1
  [currentPrimary n isAlive₁ workerId, currentPrimary n isAlive₂ secondaryId,
    currentPrimary n isAlive₃ tertiaryId]

/-- The loop of `recoverAllTablets`: the hosts, each with the tablet it is for. -/
def recoverVisits : List Bytes → ℕ → List (Bytes × ℕ)
  | [], _ => []
  | host :: hosts, tablet =>
    (host, tablet) :: recoverVisits hosts ((tablet + n - 2) % n + 1)

end Functions

/-! ### The functions of the program -/

theorem lookup_eq_lookupWorker (hash : Bytes → UInt64) (m : MasterNode) (key : Bytes) :
    m.lookup hash key = match lookupWorker numTablets m.isAlive (tabletOf hash key) with
      | none => .error ⟨.unavailable, ascii "All workers are down"⟩
      | some w => .ok (address w) := by
  rw [MasterNode.lookup, lookupWorker, tabletOf]
  split_ifs <;> rfl

theorem getCurrentPrimary_eq_currentPrimary :
    getCurrentPrimary = currentPrimary numTablets := rfl

theorem workerLookup_eq_lookupAnswers : workerLookup = lookupAnswers numTablets := rfl

theorem recoverPlan_eq_recoverVisits (hosts : List Bytes) (tablet : ℕ) :
    Worker.recoverPlan hosts tablet = recoverVisits numTablets hosts tablet := by
  induction hosts generalizing tablet with
  | nil => rfl
  | cons host hosts ih => rw [Worker.recoverPlan, recoverVisits, ih]

/-! ### Candidates -/

section Candidates

variable {n t w : ℕ}

theorem lookupWorker_eq (n : ℕ) (isAlive : ℕ → Bool) (t : ℕ) :
    lookupWorker n isAlive t = (candidateIds n t).find? isAlive := by
  rw [lookupWorker, candidateIds, next1, next2]
  by_cases h1 : isAlive t = true
  · simp [h1]
  by_cases h2 : isAlive (t % n + 1) = true
  · simp [h1, h2]
  by_cases h3 : isAlive ((t + 1) % n + 1) = true
  · simp [h1, h2, h3]
  · simp [h1, h2, h3]

theorem currentPrimary_eq (n : ℕ) (isAlive : ℕ → Bool) (t : ℕ) :
    currentPrimary n isAlive t = (((candidateIds n t).find? isAlive).map address).getD allDead := by
  rw [currentPrimary, candidateIds, next1, next2]
  cases [t, t % n + 1, (t + 1) % n + 1].find? isAlive <;> rfl

/-- The candidates behind a candidate are those it replicates to. -/
theorem candidateIds_eq_append (hn : 3 ≤ n) (ht : IsId n t) (h : w ∈ candidateIds n t) :
    ∃ before, candidateIds n t = before ++ w :: getReplicasForReplication n w t := by
  rcases candidateIds_cases hn ht h with ⟨rfl, hr⟩ | ⟨rfl, hr⟩ | ⟨rfl, hr⟩
  · exact ⟨[], by rw [hr]; rfl⟩
  · exact ⟨[t], by rw [hr]; rfl⟩
  · exact ⟨[t, next1 n t], by rw [hr]; rfl⟩

/-- Nobody replicates to itself. -/
theorem notMem_getReplicasForReplication (hn : 3 ≤ n) (hw : IsId n w) (t : ℕ) :
    w ∉ getReplicasForReplication n w t := by
  have hnd := nodup_candidateIds hn hw
  simp only [candidateIds, List.nodup_cons, List.mem_cons, List.not_mem_nil, or_false,
    not_or] at hnd
  obtain ⟨⟨h1, h2⟩, -⟩ := hnd
  rw [getReplicasForReplication]
  split_ifs
  · simp [h1, h2]
  · simp [h1]
  · exact List.not_mem_nil

end Candidates

/-! ### The tablets of a worker -/

section Tablets

variable {n w : ℕ}

theorem recoverVisits_three (hn : 3 ≤ n) (hw : IsId n w) (a b c : Bytes) :
    recoverVisits n [a, b, c] w = [(a, w), (b, prev1 n w), (c, prev2 n w)] := by
  rw [recoverVisits, recoverVisits, recoverVisits, recoverVisits, ← prev1, ← prev1,
    prev1_prev1 hn hw]

/-- An address is read back from the string of the client. -/
theorem wellFormed_address (i : ℕ) : 59 ∉ address i ∧ address i ≠ [] := by
  constructor
  · intro h
    rcases List.mem_append.mp h with h | h
    · exact absurd h (by decide)
    · exact absurd (isDigit_of_mem_decimal h).2 (by decide)
  · simp [address, ascii]

theorem wellFormed_currentPrimary (n : ℕ) (isAlive : ℕ → Bool) (t : ℕ) :
    59 ∉ currentPrimary n isAlive t ∧ currentPrimary n isAlive t ≠ [] := by
  rw [currentPrimary_eq]
  rcases (candidateIds n t).find? isAlive with _ | i
  · exact ⟨by decide, by decide⟩
  · exact wellFormed_address i

theorem getlines_lookupAnswers (n : ℕ) (isAlive₁ isAlive₂ isAlive₃ : ℕ → Bool) (w : ℕ) :
    getlines 59 (workerLookupString (lookupAnswers n isAlive₁ isAlive₂ isAlive₃ w)) =
      lookupAnswers n isAlive₁ isAlive₂ isAlive₃ w := by
  have hall : ∀ p ∈ lookupAnswers n isAlive₁ isAlive₂ isAlive₃ w, 59 ∉ p ∧ p ≠ [] := by
    intro p hp
    simp only [lookupAnswers, List.mem_cons, List.not_mem_nil, or_false] at hp
    rcases hp with rfl | rfl | rfl <;> exact wellFormed_currentPrimary n _ _
  exact getlines_intercalate (fun p hp => (hall p hp).1) (fun p hp => (hall p hp).2)
    (List.cons_ne_nil _ _)

/-- The tablets that are looked up are those of the three slots. -/
theorem lookupTablets_slots (hn : 3 ≤ n) (hw : IsId n w) :
    (lookupTablets n w).map (getTabletNumberOnThisWorker n w) = [some 0, some 1, some 2] := by
  have h := getTabletNumberOnThisWorker_storedTablet hn hw
  exact congrArg₂ List.cons (h 0) (congrArg₂ List.cons (h 1)
    (congrArg₂ List.cons (h 2) rfl))

theorem mem_lookupTablets (n w t : ℕ) :
    t ∈ lookupTablets n w ↔ getTabletNumberOnThisWorker n w t ≠ none := by
  rw [lookupTablets, getTabletNumberOnThisWorker, prev1, prev2]
  simp only [List.mem_cons, List.not_mem_nil, or_false]
  split_ifs <;> simp_all

end Tablets

/-! ### One placement -/

/-- The indices of the two programs agree about tablet `t` and worker `w`. -/
structure IndicesAgree (n t w : ℕ) : Prop where
  /-- `Lookup` tries the candidates, in their order. -/
  lookup : ∀ isAlive, lookupWorker n isAlive t = (candidateIds n t).find? isAlive
  /-- So does `getCurrentPrimary`. -/
  primary : ∀ isAlive, currentPrimary n isAlive t =
    (((candidateIds n t).find? isAlive).map address).getD allDead
  /-- No candidate is tried twice. -/
  distinct : (candidateIds n t).Nodup
  /-- The candidates are the workers that find the tablet among their own. -/
  stored : w ∈ candidateIds n t ↔ getTabletNumberOnThisWorker n w t ≠ none
  /-- A candidate replicates to the candidates after it, -/
  followers : w ∈ candidateIds n t →
    ∃ before, candidateIds n t = before ++ w :: getReplicasForReplication n w t
  /-- and not to itself. -/
  others : w ∉ getReplicasForReplication n w t
  /-- The recovery visits, with each answer, the tablet the answer is for, -/
  visited : ∀ isAlive₁ isAlive₂ isAlive₃,
    recoverVisits n
        (getlines 59 (workerLookupString (lookupAnswers n isAlive₁ isAlive₂ isAlive₃ w))) w =
      List.zipWith (fun isAlive tablet => (currentPrimary n isAlive tablet, tablet))
        [isAlive₁, isAlive₂, isAlive₃] (lookupTablets n w)
  /-- which are the tablets the worker finds among its own, -/
  own : t ∈ lookupTablets n w ↔ getTabletNumberOnThisWorker n w t ≠ none
  /-- each in another slot. -/
  slots : (lookupTablets n w).map (getTabletNumberOnThisWorker n w) = [some 0, some 1, some 2]

/-- **Placement, routing, replication and recovery agree**, for every number of tablets
from three on. -/
theorem indicesAgree {n t w : ℕ} (hn : 3 ≤ n) (ht : IsId n t) (hw : IsId n w) :
    IndicesAgree n t w where
  lookup isAlive := lookupWorker_eq n isAlive t
  primary isAlive := currentPrimary_eq n isAlive t
  distinct := nodup_candidateIds hn ht
  stored := by
    rw [← getTabletNumberOnThisWorker_isSome_iff hn ht hw, Option.isSome_iff_ne_none]
  followers := candidateIds_eq_append hn ht
  others := notMem_getReplicasForReplication hn hw t
  visited isAlive₁ isAlive₂ isAlive₃ := by
    rw [getlines_lookupAnswers, lookupAnswers, recoverVisits_three hn hw]
    rfl
  own := mem_lookupTablets n w t
  slots := lookupTablets_slots hn hw

/-- The last worker and the first tablet of three: each of them is a neighbour of the
other on both sides. -/
theorem indicesAgree_three : IndicesAgree 3 1 3 :=
  indicesAgree (by decide) (by decide) (by decide)

end PennCloud
