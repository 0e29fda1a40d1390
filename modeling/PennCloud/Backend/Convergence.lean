import PennCloud.Backend.Cluster

/-!
# Writes in flight

A worker that serves a write updates its own tablet and then calls the replicas,
one after the other, from the thread that handles the request. Requests are
handled side by side, so between the update and the calls anything else may
happen: `PennCloud.Network` keeps, beside the workers, the requests whose calls
are not all made yet, in the order in which they were issued. Nothing in the
calls says in which order the updates were made, and a replica makes them as they
come.

* `PennCloud.Network.converge_of_reaches` – if no call overtakes the call of an
  earlier request for the same cell on the same replica, the copies are equal
  once all calls are made. The invariant is that a replica becomes the primary by
  executing what is still on its way to it (`PennCloud.Network.Pending`), and a
  call that overtakes calls for other cells does not change that
  (`KeyValue.exec_move_front`).
* `PennCloud.Network.overtaken_put_diverges` – two writes of one cell whose calls
  arrive in the other order.
-/

namespace PennCloud

open Wire KeyValue Worker

/-- A request that has been served, with the replicas still to be called. -/
structure Flight where
  /-- The update. -/
  update : Update
  /-- The replicas still to be called. -/
  targets : List ℕ

/-- The workers and the requests in flight, in the order in which they were
issued. -/
structure Network where
  /-- The workers. -/
  cluster : Cluster
  /-- The requests. -/
  inflight : List Flight

namespace Network

/-- What can happen. -/
inductive Event where
  /-- Worker `p` makes its own part of a write. -/
  | issue (p : ℕ) (u : Update) (env : ℕ → Env)
  /-- The next replica of request `i` is called. -/
  | deliver (i : ℕ) (env : ℕ → Env)

/-- The part of a write on worker `p` before the replicas are called. -/
def issue (hash : Bytes → UInt64) (n : Network) (p : ℕ) (u : Update) (env : ℕ → Env) :
    Network × Status :=
  let (w, st) := handle hash p (env p) u (n.cluster p)
  if st.isOk then
    (⟨Function.update n.cluster p w,
      n.inflight ++ [⟨u, getReplicasForReplication numTablets p (tabletOf hash u.row)⟩]⟩, st)
  else (⟨Function.update n.cluster p w, n.inflight⟩, st)

/-- The next call of request `i`. -/
def deliver (hash : Bytes → UInt64) (n : Network) (i : ℕ) (env : ℕ → Env) : Network :=
  match n.inflight[i]? with
  | some ⟨u, r :: rs⟩ => ⟨n.cluster.replicateTo hash env u r, n.inflight.set i ⟨u, rs⟩⟩
  | _ => n

/-- One step. -/
def step (hash : Bytes → UInt64) (n : Network) : Event → Network
  | .issue p u env => (n.issue hash p u env).1
  | .deliver i env => n.deliver hash i env

/-- All workers are up, with empty tablets, and nothing is in flight. -/
def start : Network := ⟨Cluster.start, []⟩

/-! ### What a step does -/

section Frame

variable {hash : Bytes → UInt64} {n : Network} {p : ℕ} {u : Update} {env : ℕ → Env}

theorem cluster_issue : (n.issue hash p u env).1.cluster =
    Function.update n.cluster p (handle hash p (env p) u (n.cluster p)).1 := by
  simp only [issue]
  split_ifs <;> rfl

theorem status_issue : (n.issue hash p u env).2 = (handle hash p (env p) u (n.cluster p)).2 := by
  simp only [issue]
  split_ifs <;> rfl

theorem mem_inflight_issue {f : Flight} (h : f ∈ (n.issue hash p u env).1.inflight) :
    f ∈ n.inflight ∨ f.update = u := by
  simp only [issue] at h
  split_ifs at h
  · rcases List.mem_append.mp h with h | h
    · exact Or.inl h
    · exact Or.inr (congrArg Flight.update (List.mem_singleton.mp h))
  · exact Or.inl h

/-- **What a call does**: nothing, when there is none to make, or the replica
handles the update. -/
theorem deliver_cases (n : Network) (hash : Bytes → UInt64) (i : ℕ) (env : ℕ → Env) :
    n.deliver hash i env = n ∨ ∃ u r rs, n.inflight[i]? = some ⟨u, r :: rs⟩ ∧
      n.deliver hash i env = ⟨Function.update n.cluster r (handle hash r (env r) u (n.cluster r)).1,
        n.inflight.set i ⟨u, rs⟩⟩ := by
  rcases hi : n.inflight[i]? with _ | ⟨u, _ | ⟨r, rs⟩⟩
  · exact Or.inl (by simp only [deliver, hi])
  · exact Or.inl (by simp only [deliver, hi])
  · refine Or.inr ⟨u, r, rs, rfl, ?_⟩
    simp only [deliver, hi]
    rw [Cluster.replicateTo, replicate_eq]

end Frame

/-! ### What is on its way to a replica -/

/-- The commands on tablet `t` on their way to replica `r`, in the order in which
they were issued. -/
def pending (hash : Bytes → UInt64) (t r : ℕ) (l : List Flight) :
    List (Cmd (Bytes × Bytes) Bytes) :=
  (l.filter fun f => tabletOf hash f.update.row = t ∧ r ∈ f.targets).map fun f => f.update.cmd

section Pending

variable {hash : Bytes → UInt64} {t r : ℕ}

@[simp] theorem pending_nil : pending hash t r [] = [] := rfl

theorem pending_append (l l' : List Flight) :
    pending hash t r (l ++ l') = pending hash t r l ++ pending hash t r l' := by
  simp [pending]

theorem pending_cons_of_mem {f : Flight} (ht : tabletOf hash f.update.row = t)
    (hr : r ∈ f.targets) (l : List Flight) :
    pending hash t r (f :: l) = f.update.cmd :: pending hash t r l := by
  simp [pending, ht, hr]

theorem pending_cons_of_notMem {f : Flight}
    (h : ¬(tabletOf hash f.update.row = t ∧ r ∈ f.targets)) (l : List Flight) :
    pending hash t r (f :: l) = pending hash t r l := by
  simp [pending, h]

end Pending

/-! ### Convergence -/

/-- **No call overtakes** the call of an earlier request for the same cell on the
same replica. -/
def InOrder (n : Network) (i : ℕ) : Prop :=
  ∀ u r rs, n.inflight[i]? = some ⟨u, r :: rs⟩ → ∀ j < i, ∀ f, n.inflight[j]? = some f →
    f.update.cell = u.cell → r ∉ f.targets

/-- What is asked of a step: a write is sent to the worker the coordinator names,
which can open its checkpoint file if it has to, and no call overtakes. -/
def StepOk (hash : Bytes → UInt64) (n : Network) : Event → Prop
  | .issue p u env => Cluster.lookup hash n.cluster.isAlive u.row = some p ∧
      ((slotAt p (tabletOf hash u.row) (n.cluster p)).checkpointDue = true → (env p).opens = true)
  | .deliver i _ => InOrder n i

/-- **A replica is on its way to the primary**: executing what is still pending
for it gives the cells of the primary. -/
def Pending (hash : Bytes → UInt64) (n : Network) (t r : ℕ) : Prop :=
  exec (pending hash t r n.inflight) (slotAt r t (n.cluster r)).tablet.cells =
    some (slotAt t t (n.cluster t)).tablet.cells

/-- The invariant of the network. -/
structure Converging (hash : Bytes → UInt64) (n : Network) : Prop where
  /-- All workers are up. -/
  isUp : ∀ q, (n.cluster q).isUp = true
  /-- No row is without columns. -/
  noEmptyRow : ∀ q, (n.cluster q).NoEmptyRow
  /-- The replicas still to be called are the last ones of the list. -/
  targets : ∀ f ∈ n.inflight, f.targets <:+ getReplicasForReplication numTablets
    (tabletOf hash f.update.row) (tabletOf hash f.update.row)
  /-- Every replica is on its way. -/
  pending : ∀ t, IsId numTablets t → ∀ r ∈ getReplicasForReplication numTablets t t,
    Pending hash n t r

section Steps

variable {hash : Bytes → UInt64} {n : Network}

theorem converging_start : Converging hash start where
  isUp := fun _ => rfl
  noEmptyRow := fun _ _ => Tablet.noEmptyRow_empty
  targets := by simp [start]
  pending := fun _ _ _ _ => rfl

/-- The first candidate of a tablet is the worker of the same number. -/
theorem mem_candidateIds_self (t : ℕ) : t ∈ candidateIds numTablets t := List.mem_cons_self

/-- A worker that handles a write of another tablet keeps this one. -/
theorem slotAt_update_of_ne {σ : Cluster} {u : Update} {t q p : ℕ} (ht : IsId numTablets t)
    (hq : q ∈ candidateIds numTablets t) (hne : tabletOf hash u.row ≠ t) (env : Env) :
    slotAt q t (Function.update σ p (handle hash p env u (σ p)).1 q) = slotAt q t (σ q) := by
  rcases eq_or_ne q p with rfl | hqp
  · rw [Function.update_self]
    exact slotAt_handle_of_ne ht hq hne env
  · rw [Function.update_of_ne hqp]

theorem isUp_update_handle {σ : Cluster} {u : Update} {p : ℕ} (h : ∀ q, (σ q).isUp = true)
    (env : Env) (q : ℕ) : (Function.update σ p (handle hash p env u (σ p)).1 q).isUp = true := by
  rcases eq_or_ne q p with rfl | hqp
  · rw [Function.update_self, isUp_handle]
    exact h q
  · rw [Function.update_of_ne hqp]
    exact h q

theorem noEmptyRow_update_handle {σ : Cluster} {u : Update} {p : ℕ} (h : ∀ q, (σ q).NoEmptyRow)
    (env : Env) (q : ℕ) :
    (Function.update σ p (handle hash p env u (σ p)).1 q).NoEmptyRow := by
  rcases eq_or_ne q p with rfl | hqp
  · rw [Function.update_self]
    exact noEmptyRow_handle (h q) env u
  · rw [Function.update_of_ne hqp]
    exact h q

/-- **A write that is issued** is on its way to the replicas. -/
theorem converging_issue (h : Converging hash n) {u : Update} {env : ℕ → Env}
    (hopens : (slotAt (tabletOf hash u.row) (tabletOf hash u.row)
      (n.cluster (tabletOf hash u.row))).checkpointDue = true →
        (env (tabletOf hash u.row)).opens = true) :
    Converging hash (n.issue hash (tabletOf hash u.row) u env).1 := by
  obtain ⟨t, ht⟩ : ∃ t, t = tabletOf hash u.row := ⟨_, rfl⟩
  have htid : IsId numTablets t := ht ▸ isId_tabletOf hash u.row
  have hself : t ∈ candidateIds numTablets (tabletOf hash u.row) := ht ▸ mem_candidateIds_self t
  rw [← ht] at hopens ⊢
  have hslot := slotAt_handle hself (h.isUp t) (env t)
  rw [← ht] at hslot
  rcases hk : u.onTablet (slotAt t t (n.cluster t)).tablet with st | kvs
  · -- refused: the worker is as it was
    have hsame : n.issue hash t u env = (n, st) := by
      have hhandle : handle hash t (env t) u (n.cluster t) = (n.cluster t, st) :=
        handle_of_error hself (h.isUp t) (ht ▸ hk) (env t)
      simp [issue, hhandle, (Update.exec_cells_error hk).2]
    rw [hsame]
    exact h
  -- accepted: the cells of the primary go one command further, and so does what is pending
  have hok : (handle hash t (env t) u (n.cluster t)).2.isOk = true := by
    rw [hslot.2]
    exact (Slot.isOk_update hopens).mpr ⟨kvs, hk⟩
  have hissue : (n.issue hash t u env).1 =
      ⟨Function.update n.cluster t (handle hash t (env t) u (n.cluster t)).1,
        n.inflight ++ [⟨u, getReplicasForReplication numTablets t (tabletOf hash u.row)⟩]⟩ := by
    simp [issue, hok]
  rw [hissue]
  refine ⟨isUp_update_handle h.isUp _, noEmptyRow_update_handle h.noEmptyRow _, ?_, ?_⟩
  · intro f hf
    rcases List.mem_append.mp hf with hf | hf
    · exact h.targets f hf
    · rw [List.mem_singleton.mp hf, ht]
  · intro t' ht' r hr
    obtain ⟨-, hnotself, hrc⟩ := Cluster.replicas_spec ht' (mem_candidateIds_self t')
    have hold := h.pending t' ht' r hr
    rw [Pending] at hold ⊢
    dsimp only
    rw [pending_append]
    rcases eq_or_ne t t' with rfl | hne
    · have hrt : r ≠ t := by
        rintro rfl
        exact hnotself hr
      rw [Function.update_of_ne hrt, Function.update_self, hslot.1, Slot.tablet_update hk,
        pending_cons_of_mem ht.symm (by rw [← ht]; exact hr), pending_nil, exec_append, hold,
        Option.bind_some, exec_cons, Update.exec_cells hk]
      rfl
    · have hne' : tabletOf hash u.row ≠ t' := ht ▸ hne
      rw [slotAt_update_of_ne ht' (hrc r hr) hne', slotAt_update_of_ne ht'
        (mem_candidateIds_self t') hne', pending_cons_of_notMem (fun hc => hne' hc.1), pending_nil,
        List.append_nil]
      exact hold

/-- Request `i` in its place among the others. -/
theorem split_inflight {l : List Flight} {i : ℕ} {f : Flight} (h : l[i]? = some f) (f' : Flight) :
    ∃ l₁ l₂, l = l₁ ++ f :: l₂ ∧ l₁.length = i ∧ l.set i f' = l₁ ++ f' :: l₂ := by
  obtain ⟨hi, hf⟩ := List.getElem?_eq_some_iff.mp h
  obtain ⟨l₁, l₂, hl, hlen, hset⟩ : ∃ l₁ l₂, l = l₁ ++ l[i] :: l₂ ∧ l₁.length = i ∧
      l.set i f' = l₁ ++ f' :: l₂ := List.exists_of_set hi
  exact ⟨l₁, l₂, hf ▸ hl, hlen, hset⟩

/-- A call changes what is on its way to the replica called, and to no other. -/
theorem pending_set_of_ne {u : Update} {r r' : ℕ} {rs : List ℕ} (hne : r' ≠ r) (t : ℕ)
    (l₁ l₂ : List Flight) :
    pending hash t r' (l₁ ++ ⟨u, rs⟩ :: l₂) = pending hash t r' (l₁ ++ ⟨u, r :: rs⟩ :: l₂) := by
  by_cases h : tabletOf hash u.row = t ∧ r' ∈ rs
  · simp [pending, hne, h]
  · simp [pending, hne, h]

/-- What is pending for another tablet is not touched by a call. -/
theorem pending_set_of_tablet_ne {u : Update} {t : ℕ} (hne : tabletOf hash u.row ≠ t) (r : ℕ)
    (rs rs' : List ℕ) (l₁ l₂ : List Flight) :
    pending hash t r (l₁ ++ ⟨u, rs⟩ :: l₂) = pending hash t r (l₁ ++ ⟨u, rs'⟩ :: l₂) := by
  simp [pending, hne]

/-- **A call that does not overtake** brings the replica one command further on
its way. -/
theorem converging_deliver (h : Converging hash n) {i : ℕ} (hin : InOrder n i) (env : ℕ → Env) :
    Converging hash (n.deliver hash i env) := by
  rcases n.deliver_cases hash i env with hsame | ⟨u, r, rs, hi, hdel⟩
  · rw [hsame]
    exact h
  · rw [hdel]
    obtain ⟨l₁, l₂, hl, hlen, hset⟩ := split_inflight hi ⟨u, rs⟩
    have hf : (⟨u, r :: rs⟩ : Flight) ∈ n.inflight := List.mem_of_getElem? hi
    have hsuffix := h.targets _ hf
    obtain ⟨t, ht⟩ : ∃ t, t = tabletOf hash u.row := ⟨_, rfl⟩
    have htid : IsId numTablets t := ht ▸ isId_tabletOf hash u.row
    rw [← ht] at hsuffix
    obtain ⟨hnd, hnotself, hrc⟩ := Cluster.replicas_spec htid (mem_candidateIds_self t)
    have hr : r ∈ getReplicasForReplication numTablets t t := hsuffix.subset List.mem_cons_self
    have hrs : r ∉ rs := (List.nodup_cons.mp (hnd.sublist hsuffix.sublist)).1
    refine ⟨isUp_update_handle h.isUp _, noEmptyRow_update_handle h.noEmptyRow _, ?_, ?_⟩
    · intro f hfset
      rcases List.mem_or_eq_of_mem_set hfset with hmem | rfl
      · exact h.targets f hmem
      · rw [← ht]
        exact (List.suffix_cons r rs).trans hsuffix
    · intro t' ht' r' hr'
      obtain ⟨-, hnotself', hrc'⟩ := Cluster.replicas_spec ht' (mem_candidateIds_self t')
      have hold := h.pending t' ht' r' hr'
      rw [Pending, hl] at hold
      rw [Pending]
      dsimp only
      rw [hset]
      rcases eq_or_ne t t' with rfl | hne
      · have htr : t ≠ r := by
          rintro rfl
          exact hnotself hr
        rw [Function.update_of_ne htr]
        rcases eq_or_ne r' r with rfl | hne'
        · -- the call overtakes only calls for other cells
          have hmem : r' ∈ (⟨u, r' :: rs⟩ : Flight).targets := List.mem_cons_self
          rw [pending_append, pending_cons_of_mem ht.symm hmem] at hold
          have hother : ∀ d ∈ pending hash t r' l₁, d.key ≠ u.cmd.key := by
            intro d hd
            obtain ⟨f, hfm, rfl⟩ := List.mem_map.mp hd
            obtain ⟨hf₁, hfr⟩ := List.mem_filter.mp hfm
            obtain ⟨j, hj, hjf⟩ := List.getElem_of_mem hf₁
            have hjn : n.inflight[j]? = some f := by
              rw [hl, List.getElem?_append_left hj, List.getElem?_eq_getElem hj, hjf]
            rw [Update.key_cmd, Update.key_cmd]
            intro hcell
            refine hin u r' rs hi j (hlen ▸ hj) f hjn hcell ?_
            exact (of_decide_eq_true hfr).2
          rw [exec_move_front _ _ hother] at hold
          obtain ⟨s, hs, hrest⟩ := Option.bind_eq_some_iff.mp hold
          have hrcand : r' ∈ candidateIds numTablets (tabletOf hash u.row) := ht ▸ hrc r' hr
          have hslot := slotAt_handle hrcand (h.isUp r') (env r')
          rw [← ht] at hslot
          rcases hk : u.onTablet (slotAt r' t (n.cluster r')).tablet with st | kvs
          · rw [(Update.exec_cells_error hk).1] at hs
            exact absurd hs (by simp)
          · have hcells : kvs.cells = s :=
              Option.some.inj ((Update.exec_cells hk).symm.trans hs)
            rw [Function.update_self, hslot.1, Slot.tablet_update hk, hcells, pending_append,
              pending_cons_of_notMem (fun hc => hrs hc.2), ← pending_append, pending_append]
            exact hrest
        · rw [Function.update_of_ne hne', pending_set_of_ne hne']
          exact hold
      · have hne' : tabletOf hash u.row ≠ t' := ht ▸ hne
        rw [slotAt_update_of_ne ht' (hrc' r' hr') hne', slotAt_update_of_ne ht'
          (mem_candidateIds_self t') hne', pending_set_of_tablet_ne hne' r' rs (r :: rs)]
        exact hold

theorem converging_step (h : Converging hash n) {e : Event} (he : StepOk hash n e) :
    Converging hash (step hash n e) := by
  cases e with
  | issue p u env =>
    obtain ⟨hp, hopens⟩ := he
    -- all workers are up, so the first candidate is the one that is named
    obtain rfl : tabletOf hash u.row = p := by
      have hfirst : firstAlive n.cluster.isAlive (tabletOf hash u.row) =
          some (tabletOf hash u.row) := firstAlive_self (h.isUp _)
      rw [Cluster.lookup_eq, hfirst] at hp
      exact Option.some.inj hp
    exact converging_issue h hopens
  | deliver i env => exact converging_deliver h he env

/-- **Concurrent writers converge**: once every call has been made, the copies of
every tablet are equal. -/
theorem converge_of_reaches (h : Runs.Reaches (step hash) (StepOk hash) start n)
    (hdone : ∀ f ∈ n.inflight, f.targets = []) {t : ℕ} (ht : IsId numTablets t) {p q : ℕ}
    (hp : p ∈ candidateIds numTablets t) (hq : q ∈ candidateIds numTablets t) :
    (slotAt p t (n.cluster p)).tablet = (slotAt q t (n.cluster q)).tablet := by
  have hconv : Converging hash n :=
    h.invariant converging_start fun _ _ hs he => converging_step hs he
  have hall : ∀ r ∈ candidateIds numTablets t,
      (slotAt r t (n.cluster r)).tablet = (slotAt t t (n.cluster t)).tablet := by
    intro r hr
    have hfirst : firstAlive n.cluster.isAlive t = some t := firstAlive_self (hconv.isUp t)
    rcases mem_of_firstAlive ht hfirst hr (hconv.isUp r) with rfl | hrep
    · rfl
    · have hnone : pending hash t r n.inflight = [] := by
        rw [pending, List.map_eq_nil_iff, List.filter_eq_nil_iff]
        intro f hf
        simp [hdone f hf]
      have hpend := hconv.pending t ht r hrep
      rw [Pending, hnone] at hpend
      exact Tablet.ext_cells (hconv.noEmptyRow r _) (hconv.noEmptyRow t _) (Option.some.inj hpend)
  rw [hall p hp, hall q hq]

end Steps

/-- A write and its two calls, for instance. -/
theorem converge_put :
    let n := step (fun _ => 0) (step (fun _ => 0) (step (fun _ => 0) start
      (.issue 1 (.put [1] [2] [3]) Cluster.anyEnv)) (.deliver 0 Cluster.anyEnv))
      (.deliver 0 Cluster.anyEnv)
    (slotAt 1 1 (n.cluster 1)).tablet = (slotAt 3 1 (n.cluster 3)).tablet := by
  have hfirst : ∀ n, StepOk (fun _ => 0) n (.deliver 0 Cluster.anyEnv) :=
    fun _ _ _ _ _ j hj => absurd hj (Nat.not_lt_zero j)
  have hissue : StepOk (fun _ => 0) start (.issue 1 (.put [1] [2] [3]) Cluster.anyEnv) := by
    refine ⟨?_, fun _ => rfl⟩
    rw [Cluster.lookup_eq]
    exact firstAlive_self rfl
  refine @converge_of_reaches (fun _ => 0) _ ((((Runs.Reaches.refl start).tail hissue).tail
    (hfirst _)).tail (hfirst _)) ?_ 1 (by decide) 1 3 (by decide) (by decide)
  intro f hf
  rw [List.mem_singleton.mp hf]

/-- Two writes of one cell, served by the worker the coordinator names, and the
calls of the second one before those of the first. -/
noncomputable def overtakenRun : Network :=
  [Event.issue 1 (.put [1] [2] [3]) Cluster.anyEnv, .issue 1 (.put [1] [2] [4]) Cluster.anyEnv,
    .deliver 1 Cluster.anyEnv, .deliver 1 Cluster.anyEnv, .deliver 0 Cluster.anyEnv,
    .deliver 0 Cluster.anyEnv].foldl (step fun _ => 0) start

/-- **Calls that overtake each other leave the copies different**: the primary has
the second value, the replicas have the first one. -/
theorem overtaken_put_diverges :
    (∀ f ∈ overtakenRun.inflight, f.targets = []) ∧
      (slotAt 1 1 (overtakenRun.cluster 1)).tablet ≠
        (slotAt 2 1 (overtakenRun.cluster 2)).tablet := by
  refine ⟨fun f hf => ?_, fun heq => ?_⟩
  · have hdone : overtakenRun.inflight.map Flight.targets = [[], []] := rfl
    have hmem : f.targets ∈ overtakenRun.inflight.map Flight.targets := List.mem_map_of_mem hf
    rw [hdone] at hmem
    simpa using hmem
  · have hone : (slotAt 1 1 (overtakenRun.cluster 1)).tablet.get [1] [2] = .ok [4] := rfl
    have htwo : (slotAt 2 1 (overtakenRun.cluster 2)).tablet.get [1] [2] = .ok [3] := rfl
    rw [heq, htwo] at hone
    exact absurd (Except.ok.inj hone) (by decide)

end Network

end PennCloud
