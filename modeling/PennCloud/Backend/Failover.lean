import PennCloud.Backend.Cluster

/-!
# Failover step by step

The coordinator learns about the workers from heartbeats and from the rounds of
its monitor, so what it believes lags behind. A worker that restarts asks it once
for the three workers to copy from, then copies one tablet after the other, and
only then serves again. Here these are separate steps of one system
(`PennCloud.System`), in any order and interleaved with the writes of clients:
the heartbeats and ticks, the shutdowns, the beginning of a recovery, each of its
rounds, and the moment the worker comes up. A recovery that nothing interrupts is
`recoverAllTablets` (`PennCloud.System.rounds_eq`), and a restart that nothing
interrupts is the `RESTART` of the admin console
(`PennCloud.System.restart_uninterrupted`).

* `PennCloud.System.copies_from_others_iff` – in a run, the workers copy from others
  exactly when every one of them asks after the monitor has found its heartbeat too
  old (`PennCloud.System.AsksInTime`). The map of the coordinator says what the last
  tick has found (`PennCloud.System.accurate_run`), and a worker is told to copy
  from itself when it is the first live candidate for one of its tablets.
* `PennCloud.System.restart_before_tick` – a worker shut down and restarted between
  two ticks.
-/

namespace PennCloud

open Wire KeyValue Worker

/-! ### The coordinator and its last tick -/

/-- The master node, and what the last round of its monitor has seen: the time and
the heartbeats recorded then. -/
structure Monitored where
  /-- The master node. -/
  node : MasterNode
  /-- What the last tick has seen, if there was one. -/
  lastTick : Option (ℤ × (ℕ → ℤ))

namespace Monitored

/-- The master node has just been started. -/
def start (now : ℤ) : Monitored := ⟨MasterNode.start now, none⟩

/-- One event at the master node. -/
def step (c : Monitored) (e : MasterNode.Event) : Monitored where
  node := c.node.step e
  lastTick := match e with
    | .heartbeat _ _ => c.lastTick
    | .monitorTick now => some (now, c.node.lastHeartbeat)

/-- **A worker is taken for alive**: the last tick found a heartbeat that was
recorded less than four seconds before. -/
def TakenForAlive (c : Monitored) (w : ℕ) : Prop :=
  ∃ now seen, c.lastTick = some (now, seen) ∧ (now - seen w) / second ≤ 3

/-- The map of the master node says what the last tick has found. -/
def Accurate (c : Monitored) : Prop := ∀ w, c.node.isAlive w = true ↔ c.TakenForAlive w

theorem accurate_start (now : ℤ) : (start now).Accurate := by
  intro w
  simp [start, MasterNode.start, TakenForAlive]

theorem accurate_step {c : Monitored} (h : c.Accurate) (e : MasterNode.Event) :
    (c.step e).Accurate := by
  cases e with
  | heartbeat id now => exact h
  | monitorTick now =>
    intro w
    simp only [step, MasterNode.step, MasterNode.monitorTick, TakenForAlive, Option.some.injEq,
      Prod.mk.injEq]
    constructor
    · intro hw
      refine ⟨now, c.node.lastHeartbeat, ⟨rfl, rfl⟩, ?_⟩
      split_ifs at hw with hold
      exact not_lt.mp hold
    · rintro ⟨now', seen, ⟨rfl, rfl⟩, hle⟩
      rw [if_neg (not_lt.mpr hle)]

theorem accurate_foldl {c : Monitored} (h : c.Accurate) (es : List MasterNode.Event) :
    (es.foldl step c).Accurate := by
  induction es generalizing c with
  | nil => exact h
  | cons e es ih => exact ih (accurate_step h e)

end Monitored

/-! ### The system -/

/-- A recovery in progress. -/
structure Recovery where
  /-- The worker. -/
  id : ℕ
  /-- The rounds still to be made: the host and the tablet of each. -/
  plan : List (Bytes × ℕ)
  /-- Whether it is the recovery of a new process, in `main`. -/
  process : Bool

/-- The coordinator, the workers, and the recoveries in progress. -/
structure System where
  /-- The coordinator. -/
  coordinator : Monitored
  /-- The workers. -/
  cluster : Cluster
  /-- The recoveries. -/
  recoveries : List Recovery

namespace System

/-- What can happen. The coordinator reads its map three times to answer a worker;
`es₁` and `es₂` are the events at the coordinator in between. -/
inductive Event where
  /-- A heartbeat or a tick, at the coordinator. -/
  | coordinator (e : MasterNode.Event)
  /-- `SHUTDOWN`. -/
  | shutdown (id : ℕ)
  /-- `RESTART`, up to the answer of the coordinator. -/
  | restart (id : ℕ) (es₁ es₂ : List MasterNode.Event)
  /-- A new process, up to the answer of the coordinator. -/
  | main (id : ℕ) (es₁ es₂ : List MasterNode.Event)
  /-- The next round of recovery `k`. -/
  | round (k : ℕ) (ord : ℕ → IterOrder)
  /-- The worker of recovery `k`, whose rounds are made, serves again. -/
  | comeUp (k : ℕ)
  /-- A process ends. -/
  | exit (id : ℕ)
  /-- A client writes, and the replicas are called. -/
  | write (u : Update) (env : ℕ → Env)

/-- The coordinator after the first and after the second read. -/
def reads (c : Monitored) (es₁ es₂ : List MasterNode.Event) : Monitored × Monitored :=
  (es₁.foldl Monitored.step c, es₂.foldl Monitored.step (es₁.foldl Monitored.step c))

/-- The hosts the coordinator answers to worker `id`. -/
def hosts (c : Monitored) (es₁ es₂ : List MasterNode.Event) (id : ℕ) : List Bytes :=
  workerLookup c.node.isAlive (reads c es₁ es₂).1.node.isAlive (reads c es₁ es₂).2.node.isAlive id

/-- A recovery begins: the worker has the answer of the coordinator. -/
def begin (s : System) (id : ℕ) (es₁ es₂ : List MasterNode.Event) (w : Worker) (process : Bool) :
    System where
  coordinator := (reads s.coordinator es₁ es₂).2
  cluster := Function.update s.cluster id w
  recoveries := s.recoveries ++
    [⟨id, recoverPlan (getlines 59 (workerLookupString (hosts s.coordinator es₁ es₂ id))) id,
      process⟩]

/-- The process of a worker ends, and its recoveries with it. -/
def exit (s : System) (id : ℕ) : System where
  coordinator := s.coordinator
  cluster := Function.update s.cluster id (s.cluster id).exit
  recoveries := s.recoveries.filter fun r => r.id ≠ id

/-- The next round of recovery `k`. -/
def round (s : System) (k : ℕ) (ord : ℕ → IterOrder) : System :=
  match s.recoveries[k]? with
  | some ⟨id, p :: plan, process⟩ =>
    match recoverTablet id (copyFrom ord s.cluster) (s.cluster id) p with
    | none => s.exit id
    | some w =>
      ⟨s.coordinator, Function.update s.cluster id w, s.recoveries.set k ⟨id, plan, process⟩⟩
  | _ => s

/-- The worker of recovery `k` serves again, when its rounds are made. -/
def comeUp (s : System) (k : ℕ) : System :=
  match s.recoveries[k]? with
  | some ⟨id, [], process⟩ =>
    ⟨s.coordinator, Function.update s.cluster id
      (if process then { (s.cluster id).up with running := true } else (s.cluster id).up),
      s.recoveries.eraseIdx k⟩
  | _ => s

/-- One step of the system. -/
def step (hash : Bytes → UInt64) (s : System) : Event → System
  | .coordinator e => { s with coordinator := s.coordinator.step e }
  | .shutdown id =>
    if (s.cluster id).running then
      { s with cluster := Function.update s.cluster id (s.cluster id).down }
    else s
  -- a second `RESTART` finds `admin_workerUp` false as well, and recovers beside the first
  | .restart id es₁ es₂ =>
    if (s.cluster id).running && !(s.cluster id).adminWorkerUp then
      s.begin id es₁ es₂ (s.cluster id) false
    else s
  -- a new process listens only when it has recovered, so it is not running until then
  | .main id es₁ es₂ =>
    if !(s.cluster id).running && s.recoveries.all (fun r => r.id ≠ id) then
      s.begin id es₁ es₂ { (s.cluster id).fresh with running := false } true
    else s
  | .round k ord => s.round k ord
  | .comeUp k => s.comeUp k
  | .exit id => s.exit id
  | .write u env =>
    match Cluster.lookup hash s.coordinator.node.isAlive u.row with
    | none => s
    | some p => { s with cluster := (s.cluster.write hash env u p).1 }

/-- All workers are up with empty tablets, and the coordinator has just been
started. -/
def start (now : ℤ) : System := ⟨Monitored.start now, Cluster.start, []⟩

/-! ### What a step does -/

section Steps

variable {hash : Bytes → UInt64} {s : System}

/-- **What a round does**: nothing, when there is none to make; the process may be
gone; or the tablet of the round is recovered. -/
theorem round_cases (s : System) (k : ℕ) (ord : ℕ → IterOrder) :
    s.round k ord = s ∨ ∃ id p plan process, s.recoveries[k]? = some ⟨id, p :: plan, process⟩ ∧
      ((recoverTablet id (copyFrom ord s.cluster) (s.cluster id) p = none ∧
          s.round k ord = s.exit id) ∨
        ∃ w, recoverTablet id (copyFrom ord s.cluster) (s.cluster id) p = some w ∧
          s.round k ord = ⟨s.coordinator, Function.update s.cluster id w,
            s.recoveries.set k ⟨id, plan, process⟩⟩) := by
  rcases hk : s.recoveries[k]? with _ | ⟨id, _ | ⟨p, plan⟩, process⟩
  · exact Or.inl (by simp only [round, hk])
  · exact Or.inl (by simp only [round, hk])
  · refine Or.inr ⟨id, p, plan, process, rfl, ?_⟩
    rcases hw : recoverTablet id (copyFrom ord s.cluster) (s.cluster id) p with _ | w
    · exact Or.inl ⟨rfl, by simp only [round, hk, hw]⟩
    · exact Or.inr ⟨w, rfl, by simp only [round, hk, hw]⟩

/-- **A worker comes up** when all its rounds are made, and otherwise nothing
happens. -/
theorem comeUp_cases (s : System) (k : ℕ) :
    s.comeUp k = s ∨ ∃ id process, s.recoveries[k]? = some ⟨id, [], process⟩ ∧
      s.comeUp k = ⟨s.coordinator, Function.update s.cluster id
        (if process then { (s.cluster id).up with running := true } else (s.cluster id).up),
        s.recoveries.eraseIdx k⟩ := by
  rcases hk : s.recoveries[k]? with _ | ⟨id, _ | ⟨p, plan⟩, process⟩
  · exact Or.inl (by simp only [comeUp, hk])
  · exact Or.inr ⟨id, process, rfl, by simp only [comeUp, hk]⟩
  · exact Or.inl (by simp only [comeUp, hk])

/-- The recovery that begins with an event: the worker, and what happens at the
coordinator between its three answers. -/
def begins (s : System) : Event → Option (ℕ × List MasterNode.Event × List MasterNode.Event)
  | .restart id es₁ es₂ =>
    if (s.cluster id).running && !(s.cluster id).adminWorkerUp then some (id, es₁, es₂) else none
  | .main id es₁ es₂ =>
    if !(s.cluster id).running && s.recoveries.all (fun r => r.id ≠ id) then some (id, es₁, es₂)
    else none
  | _ => none

/-- **A recovery begins** on a worker that is not up, and is not up then; a new
process is the only one of the worker that recovers. -/
theorem step_of_begins (hash : Bytes → UInt64) {e : Event} {id : ℕ}
    {es₁ es₂ : List MasterNode.Event} (h : s.begins e = some (id, es₁, es₂)) :
    (s.cluster id).isUp = false ∧ ∃ w process, step hash s e = s.begin id es₁ es₂ w process ∧
      w.isUp = false ∧ (w = s.cluster id ∨ ∀ r ∈ s.recoveries, r.id ≠ id) := by
  cases e with
  | restart id' es₁' es₂' =>
    rw [begins] at h
    split_ifs at h with hif
    obtain ⟨rfl, rfl, rfl⟩ : id' = id ∧ es₁' = es₁ ∧ es₂' = es₂ := by simpa using h
    have hdown : (s.cluster id').isUp = false := by
      simp only [Bool.and_eq_true, Bool.not_eq_true'] at hif
      simp [isUp, hif.2]
    exact ⟨hdown, s.cluster id', false, by rw [step, if_pos hif], hdown, Or.inl rfl⟩
  | main id' es₁' es₂' =>
    rw [begins] at h
    split_ifs at h with hif
    obtain ⟨rfl, rfl, rfl⟩ : id' = id ∧ es₁' = es₁ ∧ es₂' = es₂ := by simpa using h
    obtain ⟨hgone, hnone⟩ := Bool.and_eq_true_iff.mp hif
    have hdown : (s.cluster id').isUp = false := by
      have hrun : (s.cluster id').running = false := by simpa using hgone
      simp [isUp, hrun]
    refine ⟨hdown, _, true, by rw [step, if_pos hif], rfl, Or.inr fun r hr => ?_⟩
    exact of_decide_eq_true (List.all_eq_true.mp hnone r hr)
  | _ => exact absurd h (by simp [begins])

/-- A restart of a worker that is not down does nothing. -/
theorem step_restart_of_begins {id : ℕ} {es₁ es₂ : List MasterNode.Event}
    (h : s.begins (.restart id es₁ es₂) = none) : step hash s (.restart id es₁ es₂) = s := by
  have hno : ((s.cluster id).running && !(s.cluster id).adminWorkerUp) ≠ true := by
    intro hdown
    simp [begins, hdown] at h
  rw [step, if_neg hno]

/-- A new process of a worker that has one does nothing. -/
theorem step_main_of_begins {id : ℕ} {es₁ es₂ : List MasterNode.Event}
    (h : s.begins (.main id es₁ es₂) = none) : step hash s (.main id es₁ es₂) = s := by
  have hno : (!(s.cluster id).running && s.recoveries.all fun r => r.id ≠ id) ≠ true := by
    intro hgone
    simp only [begins, hgone, if_true] at h
    exact absurd h (by simp)
  rw [step, if_neg hno]

/-- The coordinator goes through events of its own. -/
theorem coordinator_step (hash : Bytes → UInt64) (s : System) (e : Event) :
    ∃ es : List MasterNode.Event,
      (step hash s e).coordinator = es.foldl Monitored.step s.coordinator := by
  cases e with
  | coordinator e => exact ⟨[e], rfl⟩
  | shutdown id =>
    refine ⟨[], ?_⟩
    rw [step]
    split_ifs <;> rfl
  | restart id es₁ es₂ =>
    rw [step]
    split_ifs
    · exact ⟨es₁ ++ es₂, by rw [List.foldl_append]; rfl⟩
    · exact ⟨[], rfl⟩
  | main id es₁ es₂ =>
    rw [step]
    split_ifs
    · exact ⟨es₁ ++ es₂, by rw [List.foldl_append]; rfl⟩
    · exact ⟨[], rfl⟩
  | round k ord =>
    refine ⟨[], ?_⟩
    rcases s.round_cases k ord with h | ⟨_, _, _, _, _, ⟨_, h⟩ | ⟨_, _, h⟩⟩ <;> rw [step, h] <;> rfl
  | comeUp k =>
    refine ⟨[], ?_⟩
    rcases s.comeUp_cases k with h | ⟨_, _, _, h⟩ <;> rw [step, h] <;> rfl
  | exit id => exact ⟨[], rfl⟩
  | write u env =>
    refine ⟨[], ?_⟩
    rw [step]
    split <;> rfl

/-- **The map of the coordinator says what its last tick has found**, in every
state. -/
theorem accurate_run {now : ℤ} (es : List Event) :
    (es.foldl (step hash) (start now)).coordinator.Accurate := by
  induction es using List.reverseRecOn with
  | nil => exact Monitored.accurate_start now
  | append_singleton es e ih =>
    rw [List.foldl_append, List.foldl_cons, List.foldl_nil]
    obtain ⟨es', h⟩ := coordinator_step hash (es.foldl (step hash) (start now)) e
    rw [h]
    exact Monitored.accurate_foldl ih es'

/-- A step that begins no recovery at most goes on with those in progress. -/
theorem recoveries_step {e : Event} (h : s.begins e = none) {r : Recovery}
    (hr : r ∈ (step hash s e).recoveries) :
    ∃ r₀ ∈ s.recoveries, r.id = r₀.id ∧ r.plan ⊆ r₀.plan := by
  have hsame : r ∈ s.recoveries → ∃ r₀ ∈ s.recoveries, r.id = r₀.id ∧ r.plan ⊆ r₀.plan :=
    fun hr => ⟨r, hr, rfl, List.Subset.refl _⟩
  have hexit : ∀ {id}, r ∈ (s.exit id).recoveries → r ∈ s.recoveries :=
    fun hr => List.mem_of_mem_filter hr
  cases e with
  | coordinator e => exact hsame hr
  | shutdown id =>
    rw [step] at hr
    split_ifs at hr
    · exact hsame hr
    · exact hsame hr
  | restart id es₁ es₂ =>
    rw [step_restart_of_begins h] at hr
    exact hsame hr
  | main id es₁ es₂ =>
    rw [step_main_of_begins h] at hr
    exact hsame hr
  | round k ord =>
    rw [step] at hr
    rcases s.round_cases k ord with hrnd | ⟨id, p, plan, process, hk, ⟨-, hrnd⟩ | ⟨w, -, hrnd⟩⟩
    · rw [hrnd] at hr
      exact hsame hr
    · rw [hrnd] at hr
      exact hsame (hexit hr)
    · rw [hrnd] at hr
      rcases List.mem_or_eq_of_mem_set hr with hmem | rfl
      · exact hsame hmem
      · exact ⟨_, List.mem_of_getElem? hk, rfl, List.subset_cons_self p plan⟩
  | comeUp k =>
    rw [step] at hr
    rcases s.comeUp_cases k with hup | ⟨id, process, -, hup⟩
    · rw [hup] at hr
      exact hsame hr
    · rw [hup] at hr
      exact hsame (List.mem_of_mem_eraseIdx hr)
  | exit id => exact hsame (hexit hr)
  | write u env =>
    rw [step] at hr
    split at hr
    · exact hsame hr
    · exact hsame hr

end Steps

/-! ### The hosts a worker is told to copy from -/

section Hosts

variable {c : Monitored} {es₁ es₂ : List MasterNode.Event} {id : ℕ}

/-- The coordinator when it answers for the first, the second and the third tablet
of a worker. -/
def reading (c : Monitored) (es₁ es₂ : List MasterNode.Event) : Fin 3 → Monitored :=
  ![c, (reads c es₁ es₂).1, (reads c es₁ es₂).2]

theorem accurate_reading (h : c.Accurate) (i : Fin 3) : (reading c es₁ es₂ i).Accurate := by
  match i with
  | 0 => exact h
  | 1 => exact Monitored.accurate_foldl h es₁
  | 2 => exact Monitored.accurate_foldl (Monitored.accurate_foldl h es₁) es₂

/-- What the coordinator answers for the tablet in slot `i` of worker `id`. -/
def hostFor (c : Monitored) (es₁ es₂ : List MasterNode.Event) (id : ℕ) (i : Fin 3) : Bytes :=
  getCurrentPrimary (reading c es₁ es₂ i).node.isAlive (storedTablet numTablets id i)

/-- **The rounds of a recovery that begins**: one for each tablet of the worker. -/
theorem plan_eq (c : Monitored) (es₁ es₂ : List MasterNode.Event) (hid : IsId numTablets id) :
    recoverPlan (getlines 59 (workerLookupString (hosts c es₁ es₂ id))) id =
      [(hostFor c es₁ es₂ id 0, storedTablet numTablets id 0),
        (hostFor c es₁ es₂ id 1, storedTablet numTablets id 1),
        (hostFor c es₁ es₂ id 2, storedTablet numTablets id 2)] := by
  have hstring : workerLookupString (hosts c es₁ es₂ id) = answers (hostFor c es₁ es₂ id) := rfl
  have hhost : ∀ i, IsHost (hostFor c es₁ es₂ id i) :=
    fun i => isHost_getCurrentPrimary _ (isId_storedTablet hid i)
  rw [hstring, getlines_answers hhost, recoverPlan_answers hid]

theorem mem_plan (c : Monitored) (es₁ es₂ : List MasterNode.Event) (hid : IsId numTablets id)
    {p : Bytes × ℕ} :
    p ∈ recoverPlan (getlines 59 (workerLookupString (hosts c es₁ es₂ id))) id ↔
      ∃ i, p = (hostFor c es₁ es₂ id i, storedTablet numTablets id i) := by
  rw [plan_eq c es₁ es₂ hid]
  simp only [List.mem_cons, List.not_mem_nil, or_false]
  constructor
  · rintro (rfl | rfl | rfl)
    · exact ⟨0, rfl⟩
    · exact ⟨1, rfl⟩
    · exact ⟨2, rfl⟩
  · rintro ⟨i, rfl⟩
    match i with
    | 0 => exact Or.inl rfl
    | 1 => exact Or.inr (Or.inl rfl)
    | 2 => exact Or.inr (Or.inr rfl)

end Hosts

/-! ### A recovery that nothing interrupts -/

section Uninterrupted

variable {hash : Bytes → UInt64} {id : ℕ}

/-- A worker only copies from others, so what it has itself does not matter. -/
theorem recoverTablet_congr {copy copy' : ℕ → ℕ → Bytes} (h : ∀ c, c ≠ id → copy c = copy' c)
    (w : Worker) (p : Bytes × ℕ) : recoverTablet id copy w p = recoverTablet id copy' w p := by
  have hother : ∀ {c}, workerClientPtrs id p.1 = some c → copy c = copy' c := by
    intro c hc
    rw [workerClientPtrs] at hc
    have hfound := List.find?_some hc
    simp only [decide_eq_true_eq] at hfound
    exact h c hfound.1
  rw [recoverTablet, recoverTablet]
  split
  · rfl
  · split_ifs
    · rfl
    · rcases hc : workerClientPtrs id p.1 with _ | c
      · rfl
      · simp only [hother hc]

/-- **The rounds of a recovery**, one after the other with nothing in between. -/
theorem rounds_eq {s : System} {k : ℕ} {plan : List (Bytes × ℕ)} {process : Bool} {w : Worker}
    {ord : ℕ → IterOrder} (hk : s.recoveries[k]? = some ⟨id, plan, process⟩)
    (hrec : plan.foldlM (recoverTablet id (copyFrom ord s.cluster)) (s.cluster id) = some w) :
    (List.replicate plan.length (Event.round k ord)).foldl (step hash) s =
      ⟨s.coordinator, Function.update s.cluster id w, s.recoveries.set k ⟨id, [], process⟩⟩ := by
  induction plan generalizing s with
  | nil =>
    obtain rfl : s.cluster id = w := Option.some.inj hrec
    obtain ⟨hlt, heq⟩ := List.getElem?_eq_some_iff.mp hk
    simp [← heq]
  | cons p plan ih =>
    rw [List.foldlM_cons] at hrec
    obtain ⟨w₁, h₁, hrest⟩ := Option.bind_eq_some_iff.mp hrec
    have hround : step hash s (.round k ord) = ⟨s.coordinator, Function.update s.cluster id w₁,
        s.recoveries.set k ⟨id, plan, process⟩⟩ := by
      simp only [step, round, hk, h₁]
    have hlt : k < s.recoveries.length := (List.getElem?_eq_some_iff.mp hk).1
    rw [List.length_cons, List.replicate_succ, List.foldl_cons, hround, ih]
    · simp
    · simp [hlt]
    · -- the other workers have not changed
      have hcopy : ∀ c, c ≠ id → copyFrom ord (Function.update s.cluster id w₁) c =
          copyFrom ord s.cluster c := by
        intro c hc
        funext t
        rw [copyFrom, copyFrom, Function.update_of_ne hc]
      have hfun : recoverTablet id (copyFrom ord (Function.update s.cluster id w₁)) =
          recoverTablet id (copyFrom ord s.cluster) := by
        funext w' p'
        exact recoverTablet_congr hcopy w' p'
      dsimp only
      rw [Function.update_self, hfun]
      exact hrest

/-- **A restart that nothing interrupts** is the `RESTART` of one call, given the
answers of the coordinator. -/
theorem restart_uninterrupted {s : System} (hid : IsId numTablets id)
    (hrun : (s.cluster id).running = true) (hdown : (s.cluster id).adminWorkerUp = false)
    {ord : ℕ → IterOrder} {w : Worker}
    (hrec : recoverAllTablets id (copyFrom ord s.cluster)
      (workerLookupString (hosts s.coordinator [] [] id)) (s.cluster id) = some w) :
    ([Event.restart id [] []] ++ List.replicate 3 (Event.round s.recoveries.length ord) ++
        [Event.comeUp s.recoveries.length]).foldl (step hash) s =
      { s with cluster := Function.update s.cluster id w.up } := by
  rw [recoverAllTablets] at hrec
  split_ifs at hrec
  obtain ⟨plan, hplan⟩ : ∃ plan, plan =
      recoverPlan (getlines 59 (workerLookupString (hosts s.coordinator [] [] id))) id := ⟨_, rfl⟩
  have hlen : plan.length = 3 := by
    rw [hplan, plan_eq _ _ _ hid]
    rfl
  have hbegin : step hash s (.restart id [] []) =
      ⟨s.coordinator, s.cluster, s.recoveries ++ [⟨id, plan, false⟩]⟩ := by
    simp [step, hrun, hdown, begin, reads, hplan]
  rw [← hplan] at hrec
  have hk : (s.recoveries ++ [⟨id, plan, false⟩])[s.recoveries.length]? =
      some ⟨id, plan, false⟩ := by simp
  have hrounds := @rounds_eq hash id ⟨s.coordinator, s.cluster, s.recoveries ++ [⟨id, plan, false⟩]⟩
    s.recoveries.length plan false w ord hk hrec
  rw [hlen] at hrounds
  -- the recovery is the last one in the list, and gone from it when the worker is up
  rw [List.foldl_append, List.foldl_append, List.foldl_cons, List.foldl_nil, List.foldl_cons,
    List.foldl_nil, hbegin, hrounds]
  simp [step, comeUp, List.eraseIdx_append_of_length_le]

end Uninterrupted

/-! ### A worker that is told to copy from itself -/

section Self

variable {c : Monitored} {es₁ es₂ : List MasterNode.Event} {id : ℕ}

/-- A host a worker can copy from: it is not the worker itself, and unless all
candidates are dead there is a client for it. -/
def IsOther (id : ℕ) (host : Bytes) : Prop :=
  host ≠ address id ∧ (host = allDead ∨ ∃ c, workerClientPtrs id host = some c)

/-- A worker that is told to copy from itself is gone: it has no client for
that. -/
theorem recoverTablet_self (id : ℕ) (hid : id ∈ workerIds) (copy : ℕ → ℕ → Bytes) (w : Worker)
    (t : ℕ) : recoverTablet id copy w (address id, t) = none := by
  rw [recoverTablet]
  split
  · rfl
  · rw [if_neg (address_ne_allDead id hid), workerClientPtrs_self id hid]

/-- **A worker can copy from the host it is given** unless it is the first live
candidate itself. -/
theorem isOther_getCurrentPrimary {isAlive : ℕ → Bool} {t : ℕ} (ht : IsId numTablets t)
    (hid : IsId numTablets id) :
    IsOther id (getCurrentPrimary isAlive t) ↔ firstAlive isAlive t ≠ some id := by
  have hmem := mem_workerIds.mpr hid
  rcases getCurrentPrimary_cases isAlive ht with ⟨hdead, hnone⟩ | ⟨i, hi, hhost, hsome⟩
  · rw [hdead, hnone]
    refine ⟨fun _ => by simp, fun _ => ⟨?_, Or.inl rfl⟩⟩
    exact (address_ne_allDead id hmem).symm
  · rw [hhost, hsome]
    constructor
    · rintro ⟨hne, -⟩ heq
      exact hne (congrArg address (Option.some.inj heq))
    · intro hne
      have hiid : i ≠ id := fun heq => hne (congrArg some heq)
      exact ⟨fun heq => hiid (address_injOn i hi id hmem heq),
        Or.inr ⟨i, workerClientPtrs_address id hmem i hi hiid⟩⟩

/-- When a worker is the first live candidate for the tablet in one of its slots:
it is alive, and the candidates in front of it are not. -/
theorem firstAlive_storedTablet (isAlive : ℕ → Bool) (hid : IsId numTablets id) :
    (firstAlive isAlive (storedTablet numTablets id 0) = some id ↔ isAlive id = true) ∧
      (firstAlive isAlive (storedTablet numTablets id 1) = some id ↔
        isAlive id = true ∧ isAlive (prev1 numTablets id) = false) ∧
      (firstAlive isAlive (storedTablet numTablets id 2) = some id ↔ isAlive id = true ∧
        isAlive (prev2 numTablets id) = false ∧ isAlive (prev1 numTablets id) = false) := by
  have hcand : ∀ w ∈ workerIds,
      candidateIds numTablets (prev1 numTablets w) = [prev1 numTablets w, w, next1 numTablets w] ∧
        candidateIds numTablets (prev2 numTablets w) = [prev2 numTablets w, prev1 numTablets w, w] ∧
        prev1 numTablets w ≠ w ∧ prev2 numTablets w ≠ w := by decide
  obtain ⟨hc1, hc2, hne1, hne2⟩ := hcand id (mem_workerIds.mpr hid)
  have halive : ∀ {t}, firstAlive isAlive t = some id → isAlive id = true :=
    fun h => (firstAlive_some h).2
  have hfront : ∀ {t}, t ≠ id → firstAlive isAlive t = some id → isAlive t = false := by
    intro t hne h
    by_contra hcon
    rw [firstAlive_self (by simpa using hcon)] at h
    exact hne (Option.some.inj h)
  refine ⟨⟨halive, firstAlive_self⟩, ⟨fun h => ⟨halive h, hfront hne1 h⟩, ?_⟩,
    ⟨fun h => ⟨halive h, hfront hne2 h, ?_⟩, ?_⟩⟩
  · rintro ⟨hid, h1⟩
    rw [storedTablet, firstAlive, hc1, List.find?_cons_of_neg (by simp [h1]),
      List.find?_cons_of_pos hid]
  · by_contra hcon
    rw [storedTablet] at h
    have h2 := hfront hne2 h
    rw [firstAlive, hc2, List.find?_cons_of_neg (by simp [h2]),
      List.find?_cons_of_pos (by simpa using hcon)] at h
    exact hne1 (Option.some.inj h)
  · rintro ⟨hid, h2, h1⟩
    rw [storedTablet, firstAlive, hc2, List.find?_cons_of_neg (by simp [h2]),
      List.find?_cons_of_neg (by simp [h1]), List.find?_cons_of_pos hid]

/-- **The worker asks in time**: the last tick before the first answer did not find
it alive, and if one between the answers did, it found a candidate in front of it
alive as well. -/
def AsksInTime (c : Monitored) (es₁ es₂ : List MasterNode.Event) (id : ℕ) : Prop :=
  ¬c.TakenForAlive id ∧
    ((reads c es₁ es₂).1.TakenForAlive id →
      (reads c es₁ es₂).1.TakenForAlive (prev1 numTablets id)) ∧
    ((reads c es₁ es₂).2.TakenForAlive id →
      (reads c es₁ es₂).2.TakenForAlive (prev2 numTablets id) ∨
        (reads c es₁ es₂).2.TakenForAlive (prev1 numTablets id))

/-- **A worker can copy from all three hosts exactly when it asks in time.** -/
theorem isOther_hostFor_iff (h : c.Accurate) (hid : IsId numTablets id) :
    (∀ i, IsOther id (hostFor c es₁ es₂ id i)) ↔ AsksInTime c es₁ es₂ id := by
  have hfirst : ∀ i, IsOther id (hostFor c es₁ es₂ id i) ↔
      ¬firstAlive (reading c es₁ es₂ i).node.isAlive (storedTablet numTablets id i) = some id :=
    fun i => isOther_getCurrentPrimary (isId_storedTablet hid i) hid
  have htaken : ∀ i w, (reading c es₁ es₂ i).node.isAlive w = true ↔
      (reading c es₁ es₂ i).TakenForAlive w := fun i => accurate_reading h i
  have h0 : IsOther id (hostFor c es₁ es₂ id 0) ↔ ¬c.TakenForAlive id := by
    rw [hfirst 0, (firstAlive_storedTablet _ hid).1, htaken 0 id]
    rfl
  have h1 : IsOther id (hostFor c es₁ es₂ id 1) ↔ ((reads c es₁ es₂).1.TakenForAlive id →
      (reads c es₁ es₂).1.TakenForAlive (prev1 numTablets id)) := by
    rw [hfirst 1, (firstAlive_storedTablet _ hid).2.1, Bool.eq_false_iff, Ne, htaken 1, htaken 1,
      not_and_not_right]
    rfl
  have h2 : IsOther id (hostFor c es₁ es₂ id 2) ↔ ((reads c es₁ es₂).2.TakenForAlive id →
      (reads c es₁ es₂).2.TakenForAlive (prev2 numTablets id) ∨
        (reads c es₁ es₂).2.TakenForAlive (prev1 numTablets id)) := by
    rw [hfirst 2, (firstAlive_storedTablet _ hid).2.2, Bool.eq_false_iff, Bool.eq_false_iff, Ne, Ne,
      htaken 2, htaken 2, htaken 2, ← not_or, not_and_not_right]
    rfl
  constructor
  · intro hall
    exact ⟨h0.mp (hall 0), h1.mp (hall 1), h2.mp (hall 2)⟩
  · rintro ⟨hfst, hsnd, hthd⟩ i
    match i with
    | 0 => exact h0.mpr hfst
    | 1 => exact h1.mpr hsnd
    | 2 => exact h2.mpr hthd

end Self

/-! ### Copying from others -/

section CopiesFromOthers

variable {hash : Bytes → UInt64} {s : System}

/-- The rounds still to be made in the recoveries in progress all copy from other
workers, each with a client for it, or from the local files. -/
def CopiesFromOthers (s : System) : Prop :=
  ∀ r ∈ s.recoveries, IsId numTablets r.id → ∀ p ∈ r.plan, IsOther r.id p.1

/-- A worker that begins to recover asks in time. -/
def BeginsInTime (s : System) (e : Event) : Prop :=
  ∀ id es₁ es₂, s.begins e = some (id, es₁, es₂) → IsId numTablets id →
    AsksInTime s.coordinator es₁ es₂ id

/-- **A step keeps the recoveries copying from others** exactly when it begins none
out of time. -/
theorem copiesFromOthers_step (hacc : s.coordinator.Accurate) (h : s.CopiesFromOthers)
    (e : Event) : (step hash s e).CopiesFromOthers ↔ s.BeginsInTime e := by
  rcases hb : s.begins e with _ | ⟨id, es₁, es₂⟩
  · refine ⟨fun _ id es₁ es₂ hcon => ?_, fun _ r hr hid p hp => ?_⟩
    · exact absurd (hb.symm.trans hcon) (by simp)
    · obtain ⟨r₀, hr₀, hideq, hplan⟩ := recoveries_step hb hr
      rw [hideq] at hid ⊢
      exact h r₀ hr₀ hid p (hplan hp)
  · obtain ⟨-, w, process, hstep, -, -⟩ := step_of_begins hash hb
    rw [hstep]
    constructor
    · intro hall id' es₁' es₂' hb' hid
      obtain ⟨rfl, rfl, rfl⟩ : id = id' ∧ es₁ = es₁' ∧ es₂ = es₂' := by
        simpa using hb.symm.trans hb'
      have hnew := hall _ (List.mem_append_right _ List.mem_cons_self) hid
      refine (isOther_hostFor_iff hacc hid).mp fun i => ?_
      exact hnew _ ((mem_plan s.coordinator es₁ es₂ hid).mpr ⟨i, rfl⟩)
    · intro htime r hr hid p hp
      rcases List.mem_append.mp hr with hr | hr
      · exact h r hr hid p hp
      · obtain rfl := List.mem_singleton.mp hr
        dsimp only at hid hp ⊢
        have hall := (isOther_hostFor_iff hacc hid).mpr (htime id es₁ es₂ hb hid)
        obtain ⟨i, rfl⟩ := (mem_plan s.coordinator es₁ es₂ hid).mp hp
        exact hall i

/-- **A restarting worker copies from others** in all states of a run exactly when
every worker that begins to recover in it asks in time. -/
theorem copies_from_others_iff (hash : Bytes → UInt64) (now : ℤ) (es : List Event) :
    (∀ l, l <+: es → (l.foldl (step hash) (start now)).CopiesFromOthers) ↔
      ∀ l e, l ++ [e] <+: es → (l.foldl (step hash) (start now)).BeginsInTime e := by
  have hrun : ∀ l e, (l ++ [e]).foldl (step hash) (start now) =
      step hash (l.foldl (step hash) (start now)) e := by
    intro l e
    rw [List.foldl_append, List.foldl_cons, List.foldl_nil]
  constructor
  · intro hall l e hl
    refine (copiesFromOthers_step (accurate_run l) (hall l ?_) e).mp (hrun l e ▸ hall _ hl)
    exact (List.prefix_append l [e]).trans hl
  · -- by induction on the run, since a recovery keeps the rounds it began with
    intro htime l
    induction l using List.reverseRecOn with
    | nil => exact fun _ r hr => absurd hr (by simp [start])
    | append_singleton l e ih =>
      intro hl
      rw [hrun]
      refine (copiesFromOthers_step (accurate_run l) (ih ?_) e).mpr (htime l e hl)
      exact (List.prefix_append l [e]).trans hl

end CopiesFromOthers

/-- Worker 1 is shut down right after a tick has found it alive, and restarted
before the next tick. -/
def restartRun : System :=
  [Event.coordinator (.heartbeat 1 0), .coordinator (.monitorTick 0), .shutdown 1,
    .restart 1 [] []].foldl (step fun _ => 0) (start 0)

/-- **A worker restarted between two ticks is told to copy from itself**, has no
client for that, and its process is gone. -/
theorem restart_before_tick : ¬restartRun.CopiesFromOthers ∧
    ((step (fun _ => 0) restartRun (.round 0 fun _ => default)).cluster 1).running = false := by
  have hplan : restartRun.recoveries =
      [⟨1, [(address 1, 1), (address 1, 6), (address 1, 5)], false⟩] := by
    rfl
  refine ⟨fun hcon => ?_, ?_⟩
  · have hmem : (⟨1, [(address 1, 1), (address 1, 6), (address 1, 5)], false⟩ : Recovery) ∈
        restartRun.recoveries := by
      rw [hplan]
      exact List.mem_cons_self
    exact (hcon _ hmem (by decide) _ List.mem_cons_self).1 rfl
  · have hnone : recoverTablet 1 (copyFrom (fun _ => default) restartRun.cluster)
        (restartRun.cluster 1) (address 1, 1) = none :=
      recoverTablet_self 1 (by decide) _ _ 1
    have hround : restartRun.round 0 (fun _ => default) = restartRun.exit 1 := by
      simp only [round, hplan, List.getElem?_cons_zero, hnone]
    rw [step, hround, exit]
    dsimp only
    rw [Function.update_self]
    rfl

end System

end PennCloud
