import PennCloud.Backend.Placement
import PennCloud.Backend.Tablet

/-!
# The coordinator

`backend/coordinator.cc`: the master node records the heartbeats of the workers,
recomputes from them every few seconds which workers are alive, and answers two
kinds of questions out of that map: which worker serves a row
(`PennCloud.MasterNode.lookup`), and from which worker a restarting worker
should copy each of its three tablets (`PennCloud.MasterNode.workerLookup`).

Both try the candidates of the tablet in order, in two pieces of code;
`PennCloud.MasterNode.lookup_eq` and `PennCloud.getCurrentPrimary_eq` reduce
them to the first candidate that is alive (`PennCloud.firstAlive`).
-/

namespace PennCloud

open Wire

/-- The state of the master node. -/
structure MasterNode where
  /-- When the last heartbeat of a worker was recorded, in nanoseconds. -/
  lastHeartbeat : ℕ → ℤ
  /-- Whether a worker was alive at the last tick of the monitor. -/
  isAlive : ℕ → Bool

/-- One second, in nanoseconds. -/
def second : ℤ := 1000000000

/-- The state in which the master node starts, at time `now`: no worker has been
seen for an hour, and none is known to be alive. -/
def MasterNode.start (now : ℤ) : MasterNode where
  lastHeartbeat := fun _ => now - 3600 * second
  isAlive := fun _ => false

/-- A heartbeat is recorded. -/
def MasterNode.heartbeat (m : MasterNode) (now : ℤ) (workerId : ℕ) : MasterNode :=
  { m with lastHeartbeat := Function.update m.lastHeartbeat workerId now }

/-- One round of the monitor thread: a worker is alive unless its last heartbeat
was recorded more than three whole seconds ago. -/
def MasterNode.monitorTick (m : MasterNode) (now : ℤ) : MasterNode :=
  -- `duration_cast` drops the fraction, so 3.9 seconds are not more than 3
  { m with isAlive := fun workerId =>
      if (now - m.lastHeartbeat workerId) / second > 3 then false else true }

/-- What changes the state of the master node. -/
inductive MasterNode.Event where
  /-- A heartbeat reaches the master node at time `now`. -/
  | heartbeat (workerId : ℕ) (now : ℤ)
  /-- The monitor thread makes a round, with `now` as the time. -/
  | monitorTick (now : ℤ)

/-- One event at the master node. -/
def MasterNode.step (m : MasterNode) : MasterNode.Event → MasterNode
  | .heartbeat workerId now => m.heartbeat now workerId
  | .monitorTick now => m.monitorTick now

/-- `Lookup`: the address of the worker that serves a row. -/
def MasterNode.lookup (hash : Bytes → UInt64) (m : MasterNode) (key : Bytes) :
    Except Status Bytes :=
  let tablet := hashToBucket hash key numTablets
  if m.isAlive tablet then .ok (address tablet)
  else if m.isAlive (tablet % numTablets + 1) then .ok (address (tablet % numTablets + 1))
  else if m.isAlive ((tablet + 1) % numTablets + 1) then
    .ok (address ((tablet + 1) % numTablets + 1))
  else .error ⟨.unavailable, ascii "All workers are down"⟩

/-- What the coordinator answers when no candidate for a tablet is alive. -/
def allDead : Bytes := ascii "ALLDEAD"

/-- `getCurrentPrimary`: the address of the first live candidate for a tablet. -/
def getCurrentPrimary (isAlive : ℕ → Bool) (tabletId : ℕ) : Bytes :=
  match (candidateIds numTablets tabletId).find? isAlive with
  | none => allDead
  | some candidate => address candidate

/-- `WorkerLookup`: where a restarting worker finds its three tablets. Every one
of the three answers is computed from the map as it is then, so a tick of the
monitor may fall in between. -/
def workerLookup (isAlive₁ isAlive₂ isAlive₃ : ℕ → Bool) (workerId : ℕ) : List Bytes :=
  let secondaryId := (workerId + numTablets - 2) % numTablets + 1
  let tertiaryId := (workerId + numTablets - 3) % numTablets + 1
  [getCurrentPrimary isAlive₁ workerId, getCurrentPrimary isAlive₂ secondaryId,
    getCurrentPrimary isAlive₃ tertiaryId]

/-- `WorkerLookup` when no tick of the monitor falls in between. -/
def MasterNode.workerLookup (m : MasterNode) (workerId : ℕ) : List Bytes :=
  PennCloud.workerLookup m.isAlive m.isAlive m.isAlive workerId

/-- The string the client of the coordinator returns for the three answers. -/
def workerLookupString (answers : List Bytes) : Bytes := (ascii ";").intercalate answers

/-! ### The first live candidate -/

/-- The first candidate for a tablet that is alive. -/
def firstAlive (isAlive : ℕ → Bool) (t : ℕ) : Option ℕ :=
  (candidateIds numTablets t).find? isAlive

theorem getCurrentPrimary_eq (isAlive : ℕ → Bool) (t : ℕ) :
    getCurrentPrimary isAlive t = ((firstAlive isAlive t).map address).getD allDead := by
  rw [getCurrentPrimary, firstAlive]
  cases (candidateIds numTablets t).find? isAlive <;> rfl

theorem MasterNode.lookup_eq (hash : Bytes → UInt64) (m : MasterNode) (key : Bytes) :
    m.lookup hash key = match firstAlive m.isAlive (tabletOf hash key) with
      | none => .error ⟨.unavailable, ascii "All workers are down"⟩
      | some w => .ok (address w) := by
  rw [MasterNode.lookup, firstAlive, tabletOf, candidateIds, next1, next2]
  by_cases h1 : m.isAlive (hashToBucket hash key numTablets) = true
  · simp [h1]
  by_cases h2 : m.isAlive (hashToBucket hash key numTablets % numTablets + 1) = true
  · simp [h1, h2]
  by_cases h3 : m.isAlive ((hashToBucket hash key numTablets + 1) % numTablets + 1) = true
  · simp [h1, h2, h3]
  · simp [h1, h2, h3]

theorem firstAlive_some {isAlive : ℕ → Bool} {t w : ℕ} (h : firstAlive isAlive t = some w) :
    w ∈ candidateIds numTablets t ∧ isAlive w = true :=
  ⟨List.mem_of_find?_eq_some h, List.find?_some h⟩

theorem firstAlive_none {isAlive : ℕ → Bool} {t w : ℕ} (h : firstAlive isAlive t = none)
    (hw : w ∈ candidateIds numTablets t) : isAlive w = false := by
  simpa using List.find?_eq_none.mp h w hw

/-- The worker of the same number comes first. -/
theorem firstAlive_self {isAlive : ℕ → Bool} {t : ℕ} (h : isAlive t = true) :
    firstAlive isAlive t = some t :=
  List.find?_cons_of_pos h

/-- **The live candidates are the first one and those it replicates to.** -/
theorem mem_of_firstAlive {isAlive : ℕ → Bool} {t p w : ℕ} (ht : IsId numTablets t)
    (h : firstAlive isAlive t = some p) (hw : w ∈ candidateIds numTablets t)
    (halive : isAlive w = true) :
    w = p ∨ w ∈ getReplicasForReplication numTablets p t := by
  obtain ⟨hp, -⟩ := firstAlive_some h
  simp only [candidateIds, List.mem_cons, List.not_mem_nil, or_false] at hw
  -- a live candidate in front of `p` would have been found first
  rcases candidateIds_cases (by decide) ht hp with ⟨rfl, hr⟩ | ⟨rfl, hr⟩ | ⟨rfl, hr⟩
  · rcases hw with rfl | rfl | rfl
    · exact Or.inl rfl
    · exact Or.inr (by simp [hr])
    · exact Or.inr (by simp [hr])
  · rcases hw with rfl | rfl | rfl
    · rw [firstAlive, candidateIds, List.find?_cons_of_pos halive] at h
      exact Or.inl (Option.some.inj h)
    · exact Or.inl rfl
    · exact Or.inr (by simp [hr])
  · rcases hw with rfl | rfl | rfl
    · rw [firstAlive, candidateIds, List.find?_cons_of_pos halive] at h
      exact Or.inl (Option.some.inj h)
    · by_cases h1 : isAlive t = true
      · rw [firstAlive, candidateIds, List.find?_cons_of_pos h1] at h
        have heq : t = next2 numTablets t := Option.some.inj h
        have hnd := nodup_candidateIds (n := numTablets) (by decide) ht
        simp [candidateIds, ← heq] at hnd
      · rw [firstAlive, candidateIds, List.find?_cons_of_neg h1,
          List.find?_cons_of_pos halive] at h
        exact Or.inl (Option.some.inj h)
    · exact Or.inl rfl

/-! ### The answers -/

theorem address_ne_allDead : ∀ i ∈ workerIds, address i ≠ allDead := by
  decide

/-- An answer is the address of a candidate, or says that all of them are dead. -/
theorem getCurrentPrimary_cases (isAlive : ℕ → Bool) {t : ℕ} (ht : IsId numTablets t) :
    (getCurrentPrimary isAlive t = allDead ∧ firstAlive isAlive t = none) ∨
      ∃ i ∈ workerIds, getCurrentPrimary isAlive t = address i ∧ firstAlive isAlive t = some i := by
  rw [getCurrentPrimary_eq]
  rcases h : firstAlive isAlive t with _ | i
  · exact Or.inl ⟨rfl, rfl⟩
  · refine Or.inr ⟨i, mem_workerIds.mpr ?_, rfl, rfl⟩
    exact isId_candidate ht (firstAlive_some h).1

end PennCloud
