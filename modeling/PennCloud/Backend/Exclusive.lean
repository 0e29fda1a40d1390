import PennCloud.Backend.Convergence

/-!
# Compare-and-put as a race

Clients that all want to replace one value of a cell by their own, as one does to
take a lock: each has asked the coordinator for a worker at some time, and sends
its `CPut` there. The workers are up all along, but the coordinator may have taken
one of them for dead when a client asked, so the clients may turn to different
workers. The race (`PennCloud.Race`) is the coordinator, the workers with their
calls in flight, the answers the clients have got and the clients that have won.

* `PennCloud.Race.cput_exclusive` – on every worker at most one client wins, so
  there is at most one winner when all were told the same worker, and never more
  than three. A worker that has let a client win does not have the value any more,
  and nothing in the race brings it back (`PennCloud.Race.OneEach`).
* `PennCloud.Race.two_winners` – two clients that were told different workers, and
  both win: a worker calls the replicas after it in the list of candidates, and
  not the worker in front of it, which has the old value still.
-/

namespace PennCloud

open Wire KeyValue Worker

/-- The coordinator, the workers, and the clients. -/
structure Race where
  /-- The coordinator. -/
  master : MasterNode
  /-- The workers, and the calls in flight. -/
  network : Network
  /-- The answers of `Lookup`: the client, and the worker it was told. -/
  answers : List (ℕ × ℕ)
  /-- The clients whose `CPut` has succeeded, and on which worker. -/
  won : List (ℕ × ℕ)

namespace Race

/-- What can happen. -/
inductive Event where
  /-- A heartbeat or a tick, at the coordinator. -/
  | master (e : MasterNode.Event)
  /-- A client asks for the worker. -/
  | lookup (client : ℕ)
  /-- A client that was told worker `p` sends its `CPut` there. -/
  | cput (client p : ℕ) (new : Bytes) (env : ℕ → Env)
  /-- Another write on worker `p`. -/
  | other (p : ℕ) (u : Update) (env : ℕ → Env)
  /-- The next call of a request is made. -/
  | deliver (i : ℕ) (env : ℕ → Env)

section Step

variable (hash : Bytes → UInt64) (row column value : Bytes)

/-- The `CPut` of a client on worker `p`. -/
def cput (s : Race) (client p : ℕ) (new : Bytes) (env : ℕ → Env) : Race :=
  -- what the client is told is decided here; the calls of the replicas do not change it
  let (network, st) := s.network.issue hash p (.cput row column value new) env
  { s with network := network, won := if st.isOk then s.won ++ [(client, p)] else s.won }

/-- One step of the race for a cell that has a value. -/
def step (s : Race) : Event → Race
  | .master e => { s with master := s.master.step e }
  | .lookup client =>
    match Cluster.lookup hash s.master.isAlive row with
    | none => s
    | some p => { s with answers := s.answers ++ [(client, p)] }
  | .cput client p new env =>
    if (client, p) ∈ s.answers then s.cput hash row column value client p new env else s
  | .other p u env => { s with network := (s.network.issue hash p u env).1 }
  | .deliver i env => { s with network := s.network.deliver hash i env }

/-- What is asked of a step: the clients bring new values, and no other write is of
the cell. -/
def StepOk (_ : Race) : Event → Prop
  | .cput _ _ new _ => new ≠ value
  | .other _ u _ => u.cell ≠ (row, column)
  | _ => True

end Step

/-! ### Updates that do not bring the value back -/

section Harmless

variable {hash : Bytes → UInt64} {row column value : Bytes}

/-- The update is of another cell, or replaces the value by another one. -/
def Harmless (row column value : Bytes) (u : Update) : Prop :=
  u.cell ≠ (row, column) ∨ ∃ new, new ≠ value ∧ u = .cput row column value new

/-- **What a `CPut` does to the cell** on a worker that holds it: it is refused, or
it finds the value and leaves the new one. -/
theorem handle_cput_cases {q : ℕ} (hq : q ∈ candidateIds numTablets (tabletOf hash row))
    (new : Bytes) (w : Worker) (env : Env) :
    ((handle hash q env (.cput row column value new) w).1 = w ∧
        (handle hash q env (.cput row column value new) w).2.isOk = false) ∨
      (cellAt hash q row column w = some value ∧
        cellAt hash q row column (handle hash q env (.cput row column value new) w).1 =
          some new) := by
  obtain ⟨u, hu⟩ : ∃ u, u = Update.cput row column value new := ⟨_, rfl⟩
  have hcell : u.cell = (row, column) := by rw [hu]; rfl
  have hrow : u.row = row := congrArg Prod.fst hcell
  rw [← hrow] at hq
  rw [← hu]
  rcases hup : w.isUp with _ | _
  · exact Or.inl (handle_of_not_isUp hup env u)
  -- an update that is accepted stays in memory also when the checkpoint fails after it
  rcases hk : u.onTablet (slotAt q (tabletOf hash u.row) w).tablet with st | kvs
  · rw [handle_of_error hq hup hk]
    exact Or.inl ⟨rfl, (Update.exec_cells_error hk).2⟩
  · refine Or.inr ⟨?_, ?_⟩
    · rw [cellAt, ← hrow]
      rw [hu] at hk ⊢
      exact (Tablet.cput_ok hk).1
    · rw [cellAt_handle hcell hq hup hk, hu]
      rfl

/-- **A harmless update does not bring the value back.** -/
theorem Harmless.cellAt_handle {u : Update} (hu : Harmless row column value u) {q : ℕ}
    (hq : q ∈ candidateIds numTablets (tabletOf hash row)) {w : Worker} {env : Env}
    (h : cellAt hash q row column (handle hash q env u w).1 = some value) :
    cellAt hash q row column w = some value := by
  rcases hu with hne | ⟨new, -, rfl⟩
  · rw [cellAt_handle_of_ne hq hne] at h
    exact h
  · rcases handle_cput_cases hq new w env with ⟨hsame, -⟩ | ⟨hold, -⟩
    · rw [hsame] at h
      exact h
    · exact hold

end Harmless

/-! ### One winner on each worker -/

section Exclusive

variable {hash : Bytes → UInt64} {row column value : Bytes} {s : Race}

/-- **The invariant of the race**: a worker that has let a client win does not have
the value any more, and no call in flight brings it back. -/
structure OneEach (hash : Bytes → UInt64) (row column value : Bytes) (s : Race) : Prop where
  /-- The clients were told workers that hold the cell. -/
  answers : ∀ a ∈ s.answers, a.2 ∈ candidateIds numTablets (tabletOf hash row)
  /-- The winners were told the worker they won on. -/
  won : ∀ a ∈ s.won, a ∈ s.answers
  /-- The calls in flight are harmless. -/
  inflight : ∀ f ∈ s.network.inflight, Harmless row column value f.update
  /-- The winners won on different workers. -/
  nodup : (s.won.map Prod.snd).Nodup
  /-- Where a client has won the value is gone. -/
  gone : ∀ a ∈ s.won, cellAt hash a.2 row column (s.network.cluster a.2) ≠ some value

/-- A step of the workers by which the value does not come back. -/
theorem OneEach.network (h : s.OneEach hash row column value) {n : Network}
    (hinflight : ∀ f ∈ n.inflight, Harmless row column value f.update)
    (hcell : ∀ q ∈ candidateIds numTablets (tabletOf hash row),
      cellAt hash q row column (n.cluster q) = some value →
        cellAt hash q row column (s.network.cluster q) = some value) :
    OneEach hash row column value { s with network := n } where
  answers := h.answers
  won := h.won
  inflight := hinflight
  nodup := h.nodup
  gone := fun a ha hback => h.gone a ha (hcell a.2 (h.answers a (h.won a ha)) hback)

/-- A worker that handles a harmless update. -/
theorem cellAt_update_handle {u : Update} (hu : Harmless row column value u) {σ : Cluster}
    (env : ℕ → Env) (p q : ℕ) (hq : q ∈ candidateIds numTablets (tabletOf hash row))
    (h : cellAt hash q row column (Function.update σ p (handle hash p (env p) u (σ p)).1 q) =
      some value) : cellAt hash q row column (σ q) = some value := by
  rcases eq_or_ne q p with rfl | hne
  · rw [Function.update_self] at h
    exact hu.cellAt_handle hq h
  · rw [Function.update_of_ne hne] at h
    exact h

/-- **A harmless write that is issued.** -/
theorem oneEach_issue (h : s.OneEach hash row column value) {u : Update}
    (hu : Harmless row column value u) (p : ℕ) (env : ℕ → Env) :
    OneEach hash row column value { s with network := (s.network.issue hash p u env).1 } := by
  refine h.network (fun f hf => ?_) fun q hq hback => ?_
  · rcases Network.mem_inflight_issue hf with hold | hnew
    · exact h.inflight f hold
    · rw [hnew]
      exact hu
  · rw [Network.cluster_issue] at hback
    exact cellAt_update_handle hu env p q hq hback

/-- **A call.** -/
theorem oneEach_deliver (h : s.OneEach hash row column value) (i : ℕ) (env : ℕ → Env) :
    OneEach hash row column value { s with network := s.network.deliver hash i env } := by
  rcases s.network.deliver_cases hash i env with hsame | ⟨u, r, rs, hi, hdel⟩
  · rw [hsame]
    exact h
  rw [hdel]
  have hu : Harmless row column value u := h.inflight _ (List.mem_of_getElem? hi)
  refine h.network (fun f hf => ?_) fun q hq hback => cellAt_update_handle hu env r q hq hback
  rcases List.mem_or_eq_of_mem_set hf with hold | rfl
  · exact h.inflight f hold
  · exact hu

/-- **The `CPut` of a client**: it wins only where nobody has won. -/
theorem oneEach_cput (h : s.OneEach hash row column value) {client p : ℕ}
    (hp : (client, p) ∈ s.answers) {new : Bytes} (hnew : new ≠ value) (env : ℕ → Env) :
    (s.cput hash row column value client p new env).OneEach hash row column value := by
  have hpc : p ∈ candidateIds numTablets (tabletOf hash row) := h.answers _ hp
  have hissue := oneEach_issue h (u := .cput row column value new) (Or.inr ⟨new, hnew, rfl⟩) p env
  rw [cput]
  dsimp only
  rw [Network.status_issue]
  split_ifs with hok
  · rcases handle_cput_cases hpc new (s.network.cluster p) (env p) with ⟨-, hno⟩ | ⟨hold, hafter⟩
    · exact absurd (hok.symm.trans hno) (by simp)
    · -- nobody has won on this worker, which had the value until now
      have hfirst : p ∉ s.won.map Prod.snd := by
        intro hmem
        obtain ⟨a, ha, rfl⟩ := List.mem_map.mp hmem
        exact h.gone a ha hold
      refine ⟨h.answers, fun a ha => ?_, hissue.inflight, ?_, fun a ha => ?_⟩
      · rcases List.mem_append.mp ha with ha | ha
        · exact h.won a ha
        · rw [List.mem_singleton.mp ha]
          exact hp
      · rw [List.map_append, List.map_singleton]
        exact List.nodup_append.mpr ⟨h.nodup, List.nodup_singleton p, fun q hq q' hq' => by
          rw [List.mem_singleton.mp hq']
          rintro rfl
          exact hfirst hq⟩
      · rcases List.mem_append.mp ha with ha | ha
        · exact hissue.gone a ha
        · obtain rfl := List.mem_singleton.mp ha
          dsimp only
          rw [Network.cluster_issue, Function.update_self, hafter]
          exact fun heq => hnew (Option.some.inj heq)
  · exact hissue

/-- **Every step of the race** keeps the winners apart. -/
theorem oneEach_step (h : s.OneEach hash row column value) {e : Event}
    (he : StepOk row column value s e) :
    (s.step hash row column value e).OneEach hash row column value := by
  cases e with
  | master e => exact ⟨h.answers, h.won, h.inflight, h.nodup, h.gone⟩
  | lookup client =>
    rw [step, Cluster.lookup_eq]
    rcases hp : firstAlive s.master.isAlive (tabletOf hash row) with _ | p
    · exact h
    refine ⟨fun a ha => ?_, fun a ha => List.mem_append_left _ (h.won a ha), h.inflight, h.nodup,
      h.gone⟩
    rcases List.mem_append.mp ha with ha | ha
    · exact h.answers a ha
    · rw [List.mem_singleton.mp ha]
      exact (firstAlive_some hp).1
  | cput client p new env =>
    rw [step]
    split_ifs with hp
    · exact oneEach_cput h hp he env
    · exact h
  | other p u env => exact oneEach_issue h (Or.inl he) p env
  | deliver i env => exact oneEach_deliver h i env

/-- **Compare-and-put is exclusive on every worker**: of all clients that want to
replace the value of a cell that is not written otherwise, at most one wins on each
worker. So there are at most three winners, and at most one when all clients were
told the same worker. -/
theorem cput_exclusive {m : MasterNode} {n : Network}
    (hidle : ∀ f ∈ n.inflight, f.update.cell ≠ (row, column))
    (h : Runs.Reaches (step hash row column value) (StepOk row column value) ⟨m, n, [], []⟩ s) :
    (s.won.map Prod.snd).Nodup ∧ s.won.length ≤ 3 ∧
      ((∃ p, ∀ a ∈ s.answers, a.2 = p) → s.won.length ≤ 1) := by
  have hone : s.OneEach hash row column value := by
    refine h.invariant ⟨?_, ?_, fun f hf => Or.inl (hidle f hf), List.nodup_nil, ?_⟩
      fun _ _ hs he => oneEach_step hs he
    · simp
    · simp
    · simp
  -- the winners are on different workers of any list that has them all
  have hlen : ∀ l : List ℕ, (∀ a ∈ s.won, a.2 ∈ l) → s.won.length ≤ l.length := by
    intro l hl
    have hsub : s.won.map Prod.snd ⊆ l := by
      intro p hp
      obtain ⟨a, ha, rfl⟩ := List.mem_map.mp hp
      exact hl a ha
    have hle := (hone.nodup.subperm hsub).length_le
    rwa [List.length_map] at hle
  refine ⟨hone.nodup, ?_, ?_⟩
  · exact hlen _ fun a ha => hone.answers a (hone.won a ha)
  · rintro ⟨p, hp⟩
    refine hlen [p] fun a ha => ?_
    rw [hp a (hone.won a ha)]
    exact List.mem_cons_self

end Exclusive

/-- All workers are up, and the holders of a cell have a value for it. -/
noncomputable def held : Network :=
  ⟨(Cluster.start.write (fun _ => 0) Cluster.anyEnv (.put [1] [2] [3]) 1).1, []⟩

/-- The beginning of a race. -/
noncomputable def start : Race := ⟨MasterNode.start 0, held, [], []⟩

/-- Two clients are told the same worker, for instance. -/
theorem cput_exclusive_same :
    (([Event.master (.heartbeat 1 0), .master (.monitorTick 0), .lookup 1, .lookup 2,
      .cput 1 1 [4] Cluster.anyEnv, .cput 2 1 [5] Cluster.anyEnv].foldl
        (step (fun _ => 0) [1] [2] [3]) start).won).length ≤ 1 := by
  refine (@cput_exclusive (fun _ => 0) [1] [2] [3] _ (MasterNode.start 0) held
    (fun f hf => absurd hf (by simp [held])) (Runs.Reaches.foldl _ (fun s e he => ?_) start)).2.2
      ⟨1, ?_⟩
  · simp only [List.mem_cons, List.not_mem_nil, or_false] at he
    rcases he with rfl | rfl | rfl | rfl | rfl | rfl
    · trivial
    · trivial
    · trivial
    · trivial
    · exact fun heq : ([4] : Bytes) = [3] => absurd heq (by decide)
    · exact fun heq : ([5] : Bytes) = [3] => absurd heq (by decide)
  · have hanswers : ([Event.master (.heartbeat 1 0), .master (.monitorTick 0), .lookup 1, .lookup 2,
        .cput 1 1 [4] Cluster.anyEnv, .cput 2 1 [5] Cluster.anyEnv].foldl
          (step (fun _ => 0) [1] [2] [3]) start).answers = [(1, 1), (2, 1)] := rfl
    rw [hanswers]
    simp

/-- Client 2 asks when the coordinator has not yet heard of worker 1, which is up,
and client 1 asks later; client 2 is the first to send its `CPut`, and all calls
are made before client 1 sends its own. -/
noncomputable def twoClients : List Event :=
  [.master (.heartbeat 2 0), .master (.monitorTick 0), .lookup 2, .master (.heartbeat 1 0),
    .master (.monitorTick 0), .lookup 1, .cput 2 2 [5] Cluster.anyEnv, .deliver 0 Cluster.anyEnv,
    .cput 1 1 [4] Cluster.anyEnv]

/-- **Two clients that were told different workers both win.** -/
theorem two_winners : (∀ q, (held.cluster q).isUp = true) ∧
    Runs.Reaches (step (fun _ => 0) [1] [2] [3]) (StepOk [1] [2] [3]) start
      (twoClients.foldl (step (fun _ => 0) [1] [2] [3]) start) ∧
    (twoClients.foldl (step (fun _ => 0) [1] [2] [3]) start).won = [(2, 2), (1, 1)] := by
  refine ⟨fun q => ?_, Runs.Reaches.foldl _ (fun s e he => ?_) start, rfl⟩
  · have hone : 1 ∈ candidateIds numTablets (tabletOf (fun _ => 0) (Update.put [1] [2] [3]).row) :=
      List.mem_cons_self
    rw [held]
    dsimp only
    rw [Cluster.isUp_write hone]
    rfl
  · simp only [twoClients, List.mem_cons, List.not_mem_nil, or_false] at he
    rcases he with rfl | rfl | rfl | rfl | rfl | rfl | rfl | rfl | rfl
    · trivial
    · trivial
    · trivial
    · trivial
    · trivial
    · trivial
    · exact fun heq : ([5] : Bytes) = [3] => absurd heq (by decide)
    · trivial
    · exact fun heq : ([4] : Bytes) = [3] => absurd heq (by decide)

end Race

end PennCloud
