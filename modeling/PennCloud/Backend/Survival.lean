import PennCloud.Backend.Durability
import PennCloud.Backend.Failover

/-!
# An acknowledged write, followed through failovers

A write has been acknowledged; workers are shut down, restarted and taken for dead
or alive by the coordinator after that, and a read is sent wherever the
coordinator says. The write is kept by whoever has it in memory. What has to be
followed is the restarting worker, which is not up while it copies its tablets:
a copy made before the write does not have it, and the write is not sent to a
worker that is not up.

* `PennCloud.System.put_survives` – if the write was sent to all copies that were
  up, and no worker that was recovering had copied the tablet already, then every
  later read that reaches a worker that is up returns it, as long as the tablet is
  recovered from workers that are up. The invariant
  (`PennCloud.System.Survives`) speaks of the copies that are up and of those that
  have been made and are not yet served.
* `PennCloud.System.put_lost` – four runs in which one of these conditions fails,
  and the write is not read back although a worker that has it stays up.
-/

namespace PennCloud

open Wire KeyValue Worker

/-- A recovery is past a tablet: no round is left for it. -/
def Recovery.Past (r : Recovery) (t : ℕ) : Prop := ∀ host, (host, t) ∉ r.plan

namespace System

section Survives

variable {hash : Bytes → UInt64} {row column value : Bytes} {s : System}

/-- **The value survives**: every copy that is up has it, and so does every
restarting worker that is past the tablet. -/
structure Survives (hash : Bytes → UInt64) (row column value : Bytes) (s : System) : Prop where
  /-- The copies that are up. -/
  isUp : ∀ q ∈ candidateIds numTablets (tabletOf hash row), (s.cluster q).isUp = true →
    cellAt hash q row column (s.cluster q) = some value
  /-- The copies that have been recovered. -/
  recovered : ∀ r ∈ s.recoveries, r.id ∈ candidateIds numTablets (tabletOf hash row) →
    r.Past (tabletOf hash row) → cellAt hash r.id row column (s.cluster r.id) = some value

/-- What is asked of a step: no write of the cell, and a tablet that is recovered is
copied from a worker that is up, and fits the format. -/
def KeepsCell (hash : Bytes → UInt64) (row column : Bytes) (s : System) : Event → Prop
  | .write u _ => u.cell ≠ (row, column)
  | .round k _ => ∀ id host plan process,
      s.recoveries[k]? = some ⟨id, (host, tabletOf hash row) :: plan, process⟩ →
      id ∈ candidateIds numTablets (tabletOf hash row) →
        ∃ c ∈ candidateIds numTablets (tabletOf hash row), host = address c ∧
          (s.cluster c).isUp = true ∧ (slotAt c (tabletOf hash row) (s.cluster c)).tablet.Fits
  | _ => True

/-- **A change of one worker and of the recoveries**: the worker has to have the
value if it is up or past the tablet, and the others are followed as before. -/
theorem Survives.update (h : s.Survives hash row column value) {c : Monitored} {id : ℕ} {w : Worker}
    {l : List Recovery}
    (hup : id ∈ candidateIds numTablets (tabletOf hash row) → w.isUp = true →
      cellAt hash id row column w = some value)
    (hrec : ∀ r ∈ l, r.Past (tabletOf hash row) →
      r.id ∈ candidateIds numTablets (tabletOf hash row) →
        (r.id = id → cellAt hash id row column w = some value) ∧
        (r.id ≠ id → r ∈ s.recoveries)) :
    Survives hash row column value ⟨c, Function.update s.cluster id w, l⟩ := by
  refine ⟨fun q hq hqup => ?_, fun r hr hid hpast => ?_⟩
  · dsimp only at hqup ⊢
    rcases eq_or_ne q id with rfl | hne
    · rw [Function.update_self] at hqup ⊢
      exact hup hq hqup
    · rw [Function.update_of_ne hne] at hqup ⊢
      exact h.isUp q hq hqup
  · dsimp only at hr ⊢
    obtain ⟨hself, hother⟩ := hrec r hr hpast hid
    rcases eq_or_ne r.id id with heq | hne
    · rw [heq, Function.update_self]
      exact hself heq
    · rw [Function.update_of_ne hne]
      exact h.recovered r (hother hne) hid hpast

/-- The end of a process. -/
theorem survives_exit (h : s.Survives hash row column value) (id : ℕ) :
    (s.exit id).Survives hash row column value := by
  refine h.update (fun _ hup => ?_) fun r hr _ _ => ?_
  · simp [Worker.isUp, Worker.exit] at hup
  · obtain ⟨hmem, hne⟩ := List.mem_filter.mp hr
    exact ⟨fun heq => absurd heq (of_decide_eq_true hne), fun _ => hmem⟩

theorem survives_shutdown (h : s.Survives hash row column value) (id : ℕ) :
    Survives hash row column value
      { s with cluster := Function.update s.cluster id (s.cluster id).down } := by
  refine h.update (fun _ hup => ?_) fun r hr hpast hid => ⟨fun heq => ?_, fun _ => hr⟩
  · simp [Worker.isUp, down] at hup
  · have hold := h.recovered r hr hid hpast
    rw [heq] at hold
    exact hold

/-- **A recovery that begins** has a round for the tablet before it. -/
theorem survives_begin (h : s.Survives hash row column value) {id : ℕ} {w : Worker}
    (hdown : w.isUp = false) (hw : w = s.cluster id ∨ ∀ r ∈ s.recoveries, r.id ≠ id)
    (es₁ es₂ : List MasterNode.Event) (process : Bool) :
    (s.begin id es₁ es₂ w process).Survives hash row column value := by
  refine h.update (fun _ hup => ?_) fun r hr hpast hid => ?_
  · exact absurd hup (by simp [hdown])
  rcases List.mem_append.mp hr with hr | hr
  · refine ⟨fun heq => ?_, fun _ => hr⟩
    rcases hw with rfl | hnone
    · have hold := h.recovered r hr hid hpast
      rw [heq] at hold
      exact hold
    · exact absurd heq (hnone r hr)
  · -- one of the three rounds is for the tablet, since the worker holds it
    obtain rfl := List.mem_singleton.mp hr
    dsimp only at hid
    exfalso
    have ht := isId_tabletOf hash row
    have hworker := isId_candidate ht hid
    refine hpast (hostFor s.coordinator es₁ es₂ id (slotOf id (tabletOf hash row))) ?_
    refine (mem_plan s.coordinator es₁ es₂ hworker).mpr ⟨slotOf id (tabletOf hash row), ?_⟩
    rw [storedTablet_slotOf ht hid]

/-- **What a round does to the cell**: it is copied from a worker that is up, or the
round is for another tablet. -/
theorem cellAt_round (h : s.Survives hash row column value) {id k : ℕ} {p : Bytes × ℕ}
    {plan : List (Bytes × ℕ)} {process : Bool} {ord : ℕ → IterOrder} {w : Worker}
    (hk : s.recoveries[k]? = some ⟨id, p :: plan, process⟩)
    (hok : KeepsCell hash row column s (.round k ord))
    (hid : id ∈ candidateIds numTablets (tabletOf hash row))
    (hw : recoverTablet id (copyFrom ord s.cluster) (s.cluster id) p = some w) :
    w.isUp = (s.cluster id).isUp ∧ (cellAt hash id row column w = some value ∨
      (p.2 ≠ tabletOf hash row ∧
        cellAt hash id row column w = cellAt hash id row column (s.cluster id))) := by
  obtain ⟨i, kvs, hi, hkvs, rfl⟩ := recoverTablet_cases hw
  refine ⟨rfl, ?_⟩
  have ht := isId_tabletOf hash row
  obtain ⟨host, t⟩ := p
  dsimp only at hi hkvs ⊢
  rcases eq_or_ne t (tabletOf hash row) with rfl | hne
  · -- the round is for the tablet, so the copy is that of a worker that has the value
    obtain ⟨c, hc, rfl, hup, hfits⟩ := hok id host plan process hk hid
    have hcid := mem_workerIds.mpr (isId_candidate ht hc)
    have hwid := mem_workerIds.mpr (isId_candidate ht hid)
    have hne : c ≠ id := by
      rintro rfl
      rw [recoverSlot, if_neg (address_ne_allDead c hcid), workerClientPtrs_self c hcid] at hkvs
      exact absurd hkvs (by simp)
    rw [recoverSlot_address hwid hcid hne] at hkvs
    obtain rfl : slotOf id (tabletOf hash row) = i :=
      Option.some.inj ((getTabletNumber_slotOf ht hid).symm.trans hi)
    left
    rw [cellAt, slotAt, setTablet, slots_setSlot]
    dsimp only
    rw [← Option.some.inj hkvs, copyFrom, copied_cells hup (getTabletNumber_slotOf ht hc) _ hfits]
    exact h.isUp c hc hup
  · have hslot : slotOf id (tabletOf hash row) ≠ i := by
      rintro rfl
      exact hne ((eq_storedTablet hi).trans (storedTablet_slotOf ht hid))
    refine Or.inr ⟨hne, ?_⟩
    rw [cellAt, cellAt, slotAt, slotAt, setTablet, slots_setSlot_of_ne _ hslot]

theorem survives_round (h : s.Survives hash row column value) {k : ℕ} {ord : ℕ → IterOrder}
    (hok : KeepsCell hash row column s (.round k ord)) :
    (s.round k ord).Survives hash row column value := by
  rcases s.round_cases k ord with heq | ⟨id, p, plan, process, hk, ⟨-, heq⟩ | ⟨w, hw, heq⟩⟩
  · rw [heq]
    exact h
  · rw [heq]
    exact survives_exit h id
  rw [heq]
  have hmem : (⟨id, p :: plan, process⟩ : Recovery) ∈ s.recoveries := List.mem_of_getElem? hk
  refine h.update (fun hid hup => ?_) fun r hr hpast hid => ⟨fun hrid => ?_, fun hrid => ?_⟩
  · obtain ⟨hsame, hcell | ⟨-, hcell⟩⟩ := cellAt_round h hk hok hid hw
    · exact hcell
    · rw [hcell]
      exact h.isUp id hid (hsame ▸ hup)
  · rw [hrid] at hid
    obtain ⟨-, hcell | ⟨hne, hcell⟩⟩ := cellAt_round h hk hok hid hw
    · exact hcell
    · -- the round was for another tablet: the recovery was past this one before
      rw [hcell]
      rcases List.mem_or_eq_of_mem_set hr with hold | rfl
      · have hr₀ := h.recovered r hold (hrid ▸ hid) hpast
        rw [hrid] at hr₀
        exact hr₀
      · refine h.recovered _ hmem hid fun host hin => ?_
        rcases List.mem_cons.mp hin with rfl | hin
        · exact hne rfl
        · exact hpast host hin
  · rcases List.mem_or_eq_of_mem_set hr with hold | rfl
    · exact hold
    · exact absurd rfl hrid

/-- **A worker that comes up** is past all tablets. -/
theorem survives_comeUp (h : s.Survives hash row column value) (k : ℕ) :
    (s.comeUp k).Survives hash row column value := by
  rcases s.comeUp_cases k with heq | ⟨id, process, hk, heq⟩
  · rw [heq]
    exact h
  rw [heq]
  have hmem : (⟨id, [], process⟩ : Recovery) ∈ s.recoveries := List.mem_of_getElem? hk
  -- no round is left, so in particular none for the tablet
  have hcell : ∀ w : Worker, w.slots = (s.cluster id).slots →
      id ∈ candidateIds numTablets (tabletOf hash row) →
        cellAt hash id row column w = some value := by
    intro w hw hid
    have hpast : (⟨id, [], process⟩ : Recovery).Past (tabletOf hash row) := by
      intro host hin
      exact absurd hin (by simp)
    have hold := h.recovered _ hmem hid hpast
    rw [cellAt, slotAt] at hold ⊢
    rw [hw]
    exact hold
  have hslots : (if process then { (s.cluster id).up with running := true }
      else (s.cluster id).up).slots = (s.cluster id).slots := by
    split_ifs <;> rfl
  refine h.update (fun hid _ => hcell _ hslots hid) fun r hr hpast hid => ⟨fun hrid => ?_, ?_⟩
  · exact hcell _ hslots (hrid ▸ hid)
  · exact fun _ => List.mem_of_mem_eraseIdx hr

/-- **A write of another cell** leaves the cell alone on every worker. -/
theorem survives_write (h : s.Survives hash row column value) {u : Update} {p : ℕ}
    (hp : p ∈ candidateIds numTablets (tabletOf hash u.row)) (hne : u.cell ≠ (row, column))
    (env : ℕ → Env) :
    Survives hash row column value { s with cluster := (s.cluster.write hash env u p).1 } := by
  have hcell : ∀ q ∈ candidateIds numTablets (tabletOf hash row),
      cellAt hash q row column ((s.cluster.write hash env u p).1 q) =
        cellAt hash q row column (s.cluster q) := by
    intro q hq
    rw [Cluster.write_apply hp]
    split_ifs
    · exact cellAt_handle_of_ne hq hne _
    · rfl
  refine ⟨fun q hq hup => ?_, fun r hr hid hpast => ?_⟩
  · dsimp only at hup ⊢
    rw [Cluster.isUp_write hp] at hup
    rw [hcell q hq]
    exact h.isUp q hq hup
  · dsimp only at hr ⊢
    rw [hcell r.id hid]
    exact h.recovered r hr hid hpast

/-- **Every step keeps the value.** -/
theorem survives_step (h : s.Survives hash row column value) {e : Event}
    (he : KeepsCell hash row column s e) : (step hash s e).Survives hash row column value := by
  rcases hb : s.begins e with _ | ⟨id, es₁, es₂⟩
  · cases e with
    | coordinator e => exact ⟨h.isUp, h.recovered⟩
    | shutdown id =>
      rw [step]
      split_ifs
      · exact survives_shutdown h id
      · exact h
    | restart id es₁ es₂ =>
      rw [step_restart_of_begins hb]
      exact h
    | main id es₁ es₂ =>
      rw [step_main_of_begins hb]
      exact h
    | round k ord => exact survives_round h he
    | comeUp k => exact survives_comeUp h k
    | exit id => exact survives_exit h id
    | write u env =>
      rw [step, Cluster.lookup_eq]
      rcases hp : firstAlive s.coordinator.node.isAlive (tabletOf hash u.row) with _ | p
      · exact h
      · exact survives_write h (firstAlive_some hp).1 he env
  · obtain ⟨-, w, process, hstep, hdown, hw⟩ := step_of_begins hash hb
    rw [hstep]
    exact survives_begin h hdown hw es₁ es₂ process

end Survives

/-! ### The write itself -/

section Put

variable {hash : Bytes → UInt64} {row column value : Bytes} {s₀ s : System} {env : ℕ → Env}

/-- **A write reaches all copies that matter**: every copy that is up is the one it
is sent to or a replica of that, and a worker that is recovering has yet to
recover the tablet. -/
structure ReachesAll (s : System) (p t : ℕ) : Prop where
  /-- The copies that are up. -/
  called : ∀ q ∈ candidateIds numTablets t, (s.cluster q).isUp = true →
    q = p ∨ q ∈ getReplicasForReplication numTablets p t
  /-- The workers that are recovering. -/
  before : ∀ r ∈ s.recoveries, r.id ∈ candidateIds numTablets t → (s.cluster r.id).isUp = false →
    ¬r.Past t

theorem survives_put {p : ℕ} (hp : p ∈ candidateIds numTablets (tabletOf hash row))
    (hok : (s₀.cluster.write hash env (.put row column value) p).2.isOk = true)
    (hall : s₀.ReachesAll p (tabletOf hash row)) :
    Survives hash row column value
      { s₀ with cluster := (s₀.cluster.write hash env (.put row column value) p).1 } := by
  have hup : ∀ q ∈ candidateIds numTablets (tabletOf hash row), (s₀.cluster q).isUp = true →
      cellAt hash q row column ((s₀.cluster.write hash env (.put row column value) p).1 q) =
        some value := by
    intro q hq hup
    have hserves : q = p ∨ (q ∈ getReplicasForReplication numTablets p
        (tabletOf hash (Update.put row column value).row) ∧
          (s₀.cluster.write hash env (.put row column value) p).2.isOk = true) :=
      (hall.called q hq hup).imp_right fun hrep => ⟨hrep, hok⟩
    rw [Cluster.write_apply hp, if_pos hserves]
    exact cellAt_handle (u := .put row column value) rfl hq hup rfl (env q)
  refine ⟨fun q hq hqup => ?_, fun r hr hid hpast => ?_⟩
  · dsimp only at hqup ⊢
    rw [Cluster.isUp_write hp] at hqup
    exact hup q hq hqup
  · dsimp only at hr ⊢
    -- a second restart may still be recovering when the first has brought the worker up
    rcases hrup : (s₀.cluster r.id).isUp with _ | _
    · exact absurd hpast (hall.before r hr hid hrup)
    · exact hup r.id hid hrup

/-- **An acknowledged write is not lost.** A write that was sent to all copies that
matter is returned by every later read, after any heartbeats, ticks, shutdowns,
restarts and writes of other cells, as long as the tablet is recovered from workers
that are up; a read that the coordinator sends to a worker that is not up fails. -/
theorem put_survives {p : ℕ}
    (hp : Cluster.lookup hash s₀.coordinator.node.isAlive row = some p)
    (hok : (s₀.cluster.write hash env (.put row column value) p).2.isOk = true)
    (hall : s₀.ReachesAll p (tabletOf hash row))
    (h : Runs.Reaches (step hash) (KeepsCell hash row column)
      (step hash s₀ (.write (.put row column value) env)) s) {q : ℕ}
    (hq : Cluster.lookup hash s.coordinator.node.isAlive row = some q) :
    get hash q row column (s.cluster q) = .ok value ∨
      ((s.cluster q).isUp = false ∧
        ∃ st, get hash q row column (s.cluster q) = .error st ∧ st.code = .unavailable) := by
  have hput : step hash s₀ (.write (.put row column value) env) =
      { s₀ with cluster := (s₀.cluster.write hash env (.put row column value) p).1 } := by
    rw [step]
    dsimp only [Update.row]
    rw [hp]
  rw [Cluster.lookup_eq] at hp hq
  have hsurvives : s.Survives hash row column value := by
    refine h.invariant ?_ fun _ _ hs he => survives_step hs he
    rw [hput]
    exact survives_put (firstAlive_some hp).1 hok hall
  have hqc := (firstAlive_some hq).1
  rcases hup : (s.cluster q).isUp with _ | _
  · exact Or.inr ⟨rfl, get_of_not_isUp hup row column⟩
  · exact Or.inl (get_of_cellAt hqc hup (hsurvives.isUp q hqc hup))

end Put

/-! ### Some runs -/

section StaysUp

variable {hash : Bytes → UInt64} {s : System} {q : ℕ}

/-- **A worker stays up** unless it is shut down or its process ends, or it is
recovering. -/
theorem isUp_step (hrec : ∀ r ∈ s.recoveries, r.id ≠ q) (hup : (s.cluster q).isUp = true)
    {e : Event} (hshut : e ≠ .shutdown q) (hexit : e ≠ .exit q) :
    ((step hash s e).cluster q).isUp = true ∧ ∀ r ∈ (step hash s e).recoveries, r.id ≠ q := by
  have hother : ∀ {id : ℕ} {w : Worker}, id ≠ q →
      (Function.update s.cluster id w q).isUp = true := by
    intro id w hne
    rw [Function.update_of_ne hne.symm]
    exact hup
  rcases hb : s.begins e with _ | ⟨id, es₁, es₂⟩
  · refine ⟨?_, fun r hr => ?_⟩
    · cases e with
      | coordinator e => exact hup
      | shutdown id =>
        rw [step]
        split_ifs
        · exact hother fun heq => hshut (congrArg Event.shutdown heq)
        · exact hup
      | restart id es₁ es₂ =>
        rw [step_restart_of_begins hb]
        exact hup
      | main id es₁ es₂ =>
        rw [step_main_of_begins hb]
        exact hup
      | round k ord =>
        rw [step]
        rcases s.round_cases k ord with h | ⟨id, p, plan, process, hk, h⟩
        · rw [h]
          exact hup
        · have hne : id ≠ q := hrec _ (List.mem_of_getElem? hk)
          rcases h with ⟨-, h⟩ | ⟨w, -, h⟩
          · rw [h]
            exact hother hne
          · rw [h]
            exact hother hne
      | comeUp k =>
        rw [step]
        rcases s.comeUp_cases k with h | ⟨id, process, hk, h⟩
        · rw [h]
          exact hup
        · rw [h]
          exact hother (hrec _ (List.mem_of_getElem? hk))
      | exit id => exact hother fun heq => hexit (congrArg Event.exit heq)
      | write u env =>
        rw [step, Cluster.lookup_eq]
        rcases hp : firstAlive s.coordinator.node.isAlive (tabletOf hash u.row) with _ | p
        · exact hup
        · exact (Cluster.isUp_write (firstAlive_some hp).1 q).trans hup
    · obtain ⟨r₀, hr₀, hid, -⟩ := recoveries_step hb hr
      exact hid ▸ hrec r₀ hr₀
  · obtain ⟨hdown, w, process, hstep, -, -⟩ := step_of_begins hash hb
    -- it is not this worker that begins to recover, since this one is up
    have hne : id ≠ q := by
      rintro rfl
      exact absurd hdown (by simp [hup])
    rw [hstep]
    refine ⟨hother hne, fun r hr => ?_⟩
    rcases List.mem_append.mp hr with hr | hr
    · exact hrec r hr
    · obtain rfl := List.mem_singleton.mp hr
      exact hne

/-- So it does through a list of events. -/
theorem isUp_foldl (hrec : ∀ r ∈ s.recoveries, r.id ≠ q) (hup : (s.cluster q).isUp = true)
    {es : List Event} (hes : ∀ e ∈ es, e ≠ .shutdown q ∧ e ≠ .exit q) {l : List Event}
    (hl : l <+: es) : ((l.foldl (step hash) s).cluster q).isUp = true := by
  have hall : ((l.foldl (step hash) s).cluster q).isUp = true ∧
      ∀ r ∈ (l.foldl (step hash) s).recoveries, r.id ≠ q := by
    induction l using List.reverseRecOn with
    | nil => exact ⟨hup, hrec⟩
    | append_singleton l e ih =>
      rw [List.foldl_append, List.foldl_cons, List.foldl_nil]
      obtain ⟨hup', hrec'⟩ := ih ((List.prefix_append l [e]).trans hl)
      obtain ⟨hshut, hexit⟩ := hes e (hl.subset (List.mem_append_right l List.mem_cons_self))
      exact isUp_step hrec' hup' hshut hexit
  exact hall.1

end StaysUp

/-- The state after some events. -/
def run (es : List Event) : System := es.foldl (step fun _ => 0) (start 0)

/-- The state after the write the runs here are about. -/
noncomputable def afterPut (s : System) : System :=
  step (fun _ => 0) s (.write (.put [1] [2] [3]) Cluster.anyEnv)

/-- A heartbeat of a worker. -/
def beat (id : ℕ) (now : ℤ) : Event := .coordinator (.heartbeat id now)

/-- A tick of the monitor. -/
def tick (now : ℤ) : Event := .coordinator (.monitorTick now)

/-- The worker that served a write is shut down, and a tick finds the next one alive,
for instance. -/
theorem put_survives_shutdown :
    get (fun _ => 0) 2 [1] [2] (([Event.shutdown 1, beat 2 (5 * second), tick (5 * second)].foldl
      (step fun _ => 0) (afterPut (run [beat 1 0, beat 2 0, tick 0]))).cluster 2) = .ok [3] := by
  have hall : (run [beat 1 0, beat 2 0, tick 0]).ReachesAll 1 1 := by
    have hcalled : ∀ q ∈ candidateIds numTablets 1,
        q = 1 ∨ q ∈ getReplicasForReplication numTablets 1 1 := by decide
    refine ⟨fun q hq _ => hcalled q hq, fun r hr => absurd hr ?_⟩
    simp [run, step, start, beat, tick]
  have hrun : Runs.Reaches (step fun _ => 0) (KeepsCell (fun _ => 0) [1] [2])
      (afterPut (run [beat 1 0, beat 2 0, tick 0]))
      ([Event.shutdown 1, beat 2 (5 * second), tick (5 * second)].foldl (step fun _ => 0)
        (afterPut (run [beat 1 0, beat 2 0, tick 0]))) := by
    refine Runs.Reaches.foldl _ (fun s e he => ?_) _
    simp only [List.mem_cons, List.not_mem_nil, or_false] at he
    rcases he with rfl | rfl | rfl
    · trivial
    · trivial
    · trivial
  have hp : Cluster.lookup (fun _ => 0) (run [beat 1 0, beat 2 0, tick 0]).coordinator.node.isAlive
      [1] = some 1 := rfl
  rcases put_survives hp rfl hall hrun rfl with hget | ⟨hdown, -⟩
  · exact hget
  · exact absurd hdown (by decide)

/-- **A write is lost**: it is acknowledged by the worker the coordinator names, a
worker that has it stays up through some events, none of which is a write, and the
worker the coordinator names then does not return it. -/
def Lost (s : System) (es : List Event) : Prop :=
  (∀ u env, Event.write u env ∉ es) ∧
    ∃ p q p', Cluster.lookup (fun _ => 0) s.coordinator.node.isAlive [1] = some p ∧
      (s.cluster.write (fun _ => 0) Cluster.anyEnv (.put [1] [2] [3]) p).2 = Status.OK ∧
      cellAt (fun _ => 0) q [1] [2] ((afterPut s).cluster q) = some [3] ∧
      (∀ l, l <+: es → ((l.foldl (step fun _ => 0) (afterPut s)).cluster q).isUp = true) ∧
      Cluster.lookup (fun _ => 0)
        (es.foldl (step fun _ => 0) (afterPut s)).coordinator.node.isAlive [1] = some p' ∧
      get (fun _ => 0) p' [1] [2] ((es.foldl (step fun _ => 0) (afterPut s)).cluster p') ≠ .ok [3]

/-- Worker 2 has the write and stays up; worker 1 is asked in the end. -/
theorem lost_of_run {s : System} {es : List Event} {p : ℕ}
    (hrec : ((afterPut s).recoveries.all fun r => r.id ≠ 2) = true)
    (hes : ∀ e ∈ es, (∀ u env, e ≠ .write u env) ∧ e ≠ .shutdown 2 ∧ e ≠ .exit 2)
    (hp : Cluster.lookup (fun _ => 0) s.coordinator.node.isAlive [1] = some p)
    (hok : (s.cluster.write (fun _ => 0) Cluster.anyEnv (.put [1] [2] [3]) p).2 = Status.OK)
    (hcell : cellAt (fun _ => 0) 2 [1] [2] ((afterPut s).cluster 2) = some [3])
    (hup : ((afterPut s).cluster 2).isUp = true) {s' : System}
    (hs' : es.foldl (step fun _ => 0) (afterPut s) = s')
    (hp' : Cluster.lookup (fun _ => 0) s'.coordinator.node.isAlive [1] = some 1)
    (hget : (get (fun _ => 0) 1 [1] [2] (s'.cluster 1)).isOk = false) : Lost s es := by
  refine ⟨fun u env hmem => (hes _ hmem).1 u env rfl, p, 2, 1, hp, hok, hcell,
    fun l hl => isUp_foldl (fun r hr => ?_) hup (fun e he => (hes e he).2) hl, hs' ▸ hp',
    fun hcon => ?_⟩
  · exact of_decide_eq_true (List.all_eq_true.mp hrec r hr)
  rw [hs'] at hcon
  rw [hcon] at hget
  exact absurd hget (by decide)

/-- Worker 1 recovers a tablet without data from its own files, or from worker 2. -/
theorem recoverTablet_empty {σ : Cluster} (ord : ℕ → IterOrder) {host : Bytes} {i : Fin 3}
    (h : host = allDead ∨ (host = address 2 ∧ i ≠ 2 ∧ σ 2 = empty)) :
    recoverTablet 1 (copyFrom ord σ) empty.down (host, storedTablet numTablets 1 i) =
      some empty.down := by
  have hid : IsId numTablets 1 := by decide
  have hself : empty.down.setTablet i ∅ = empty.down := setSlot_self empty.down i
  rcases h with rfl | ⟨rfl, hi, h2⟩
  · have hlocal : (empty.down.slots i).recoverFromLocal = some ∅ := recoverFromLocal_empty i
    rw [recoverTablet_eq hid, recoverSlot, if_pos rfl, hlocal, Option.map_some, hself]
  · -- the tablets of the first two slots of worker 1 are also on worker 2
    have hslot : ∀ i : Fin 3, i ≠ 2 →
        ∃ j, getTabletNumberOnThisWorker numTablets 2 (storedTablet numTablets 1 i) = some j := by
      decide
    obtain ⟨j, hj⟩ := hslot i hi
    have hup : (σ 2).isUp = true := by
      rw [h2]
      rfl
    have hempty : ((σ 2).slots j).tablet = ∅ := by
      rw [h2]
      rfl
    have hcopy := copied_exact hup hj (ord 2) (hempty ▸ Tablet.fits_empty)
      (hempty ▸ Tablet.noEmptyRow_empty)
    rw [recoverTablet_eq hid, recoverSlot_address (by decide) (by decide) (by decide), copyFrom,
      hcopy, hempty, Option.map_some, hself]

/-- The rounds of a recovery of worker 1. -/
noncomputable def rounds : List Event := List.replicate 3 (.round 0 fun _ => default)

/-- They change nothing when there is no data. -/
theorem foldl_rounds {s : System} (host : Fin 3 → Bytes)
    (hk : s.recoveries = [⟨1, [(host 0, 1), (host 1, 6), (host 2, 5)], false⟩])
    (hhost : ∀ i, host i = allDead ∨ (host i = address 2 ∧ i ≠ 2 ∧ s.cluster 2 = empty))
    (h1 : s.cluster 1 = empty.down) :
    rounds.foldl (step fun _ => 0) s = { s with recoveries := [⟨1, [], false⟩] } := by
  have hround : ∀ p ∈ [(host 0, 1), (host 1, 6), (host 2, 5)],
      recoverTablet 1 (copyFrom (fun _ => default) s.cluster) empty.down p = some empty.down := by
    intro p hp
    simp only [List.mem_cons, List.not_mem_nil, or_false] at hp
    rcases hp with rfl | rfl | rfl
    · exact recoverTablet_empty _ (hhost 0)
    · exact recoverTablet_empty _ (hhost 1)
    · exact recoverTablet_empty _ (hhost 2)
  have hrec : [(host 0, 1), (host 1, 6), (host 2, 5)].foldlM
      (recoverTablet 1 (copyFrom (fun _ => default) s.cluster)) (s.cluster 1) =
        some empty.down := by
    rw [h1]
    simp [List.foldlM_cons, hround]
  have hk0 : s.recoveries[0]? =
      some ⟨1, [(host 0, 1), (host 1, 6), (host 2, 5)], false⟩ := by
    rw [hk]
    rfl
  have hall := @rounds_eq (fun _ => 0) 1 s 0 _ false _ _ hk0 hrec
  rw [← h1, Function.update_eq_self, hk] at hall
  exact hall

/-- **Acknowledged writes are lost**, although a worker that has them stays up: the
worker the coordinator names has just been shut down; it was up, but the
coordinator had not heard of it, when the write was sent; it had recovered the
tablet before the write, and came up after it; or it recovered from its own files,
the coordinator not having heard of the others for a while. -/
theorem put_lost :
    Lost (run [beat 1 0, tick 0]) [.shutdown 1] ∧
    Lost (run [beat 2 0, tick 0]) [beat 1 0, tick 0] ∧
    Lost (run ([beat 2 0, tick 0, .shutdown 1, .restart 1 [] []] ++ rounds))
      [.comeUp 0, beat 1 0, tick 0] ∧
    Lost (run [beat 2 0, tick 0, .shutdown 1])
      ([tick (5 * second), .restart 1 [] []] ++ rounds ++
        [.comeUp 0, beat 1 (5 * second), tick (5 * second)]) := by
  refine ⟨?_, ?_, ?_, ?_⟩
  · refine lost_of_run rfl (fun e he => ?_) rfl rfl rfl rfl rfl rfl rfl
    obtain rfl := List.mem_singleton.mp he
    exact ⟨nofun, nofun, nofun⟩
  · refine lost_of_run rfl (fun e he => ?_) rfl rfl rfl rfl rfl rfl rfl
    simp only [List.mem_cons, List.not_mem_nil, or_false] at he
    rcases he with rfl | rfl
    · exact ⟨nofun, nofun, nofun⟩
    · exact ⟨nofun, nofun, nofun⟩
  · have hrun : run ([beat 2 0, tick 0, .shutdown 1, .restart 1 [] []] ++ rounds) =
        { run [beat 2 0, tick 0, .shutdown 1, .restart 1 [] []] with
          recoveries := [⟨1, [], false⟩] } := by
      have hhost : ∀ i, (![address 2, address 2, allDead] : Fin 3 → Bytes) i = allDead ∨
          ((![address 2, address 2, allDead] : Fin 3 → Bytes) i = address 2 ∧ i ≠ 2 ∧
            (run [beat 2 0, tick 0, .shutdown 1, .restart 1 [] []]).cluster 2 = empty) := by
        intro i
        match i with
        | 0 => exact Or.inr ⟨rfl, by decide, rfl⟩
        | 1 => exact Or.inr ⟨rfl, by decide, rfl⟩
        | 2 => exact Or.inl rfl
      rw [run, List.foldl_append]
      exact foldl_rounds _ rfl hhost rfl
    rw [hrun]
    refine lost_of_run rfl (fun e he => ?_) rfl rfl rfl rfl rfl rfl rfl
    simp only [List.mem_cons, List.not_mem_nil, or_false] at he
    rcases he with rfl | rfl | rfl
    · exact ⟨nofun, nofun, nofun⟩
    · exact ⟨nofun, nofun, nofun⟩
    · exact ⟨nofun, nofun, nofun⟩
  · have hrounds := foldl_rounds (s := [tick (5 * second), .restart 1 [] []].foldl
      (step fun _ => 0) (afterPut (run [beat 2 0, tick 0, .shutdown 1]))) (fun _ => allDead)
      rfl (fun _ => Or.inl rfl) rfl
    refine lost_of_run (p := 2) rfl (fun e he => ?_) rfl rfl rfl rfl
      (by rw [List.foldl_append, List.foldl_append, hrounds]) rfl rfl
    simp only [rounds, List.mem_append, List.mem_cons, List.mem_replicate, List.not_mem_nil,
      or_false] at he
    rcases he with (((rfl | rfl) | ⟨-, rfl⟩) | (rfl | rfl | rfl))
    · exact ⟨nofun, nofun, nofun⟩
    · exact ⟨nofun, nofun, nofun⟩
    · exact ⟨nofun, nofun, nofun⟩
    · exact ⟨nofun, nofun, nofun⟩
    · exact ⟨nofun, nofun, nofun⟩
    · exact ⟨nofun, nofun, nofun⟩

end System

end PennCloud
