import PennCloud.Backend.Cluster
import PennCloud.Backend.Crash

/-!
# What the caller of a write is told

The six handlers of `backend/worker.cc` that write, with all a caller can find out: the
status, what has become of the worker, and the `Replicate` calls that were made
(`PennCloud.Worker.serveWrite`). The worker with its three slots holds the tablets, the
logs, the checkpoint files and the counts, so an unchanged worker means that all of them
are.

`PennCloud.Worker.honest_iff` says when the status can be believed. Every early return
of a handler stands before its first effect. What goes wrong is the checkpoint: it comes
after the change in memory, the record in the log and the count, and before the
replication, and a file that cannot be opened ends the handler there.
-/

namespace PennCloud

open Wire

/-- What a request that writes asks of the tablet: the new value can be written whatever
is there, but a `CPut` wants to find the current one. -/
def Update.Accepted : Update → Tablet → Prop
  | .put _ _ _, _ => True
  | .cput row column cur _, kvs => kvs.cells (row, column) = some cur
  | .delete _ _, _ => True

theorem Update.accepted_iff {u : Update} {kvs : Tablet} :
    u.Accepted kvs ↔ ∃ kvs', u.onTablet kvs = .ok kvs' := by
  cases u with
  | put row column value => exact iff_of_true trivial ⟨_, rfl⟩
  | cput row column cur new =>
    rw [Update.Accepted, Update.onTablet]
    rcases h : kvs.cput row column cur new with st | kvs'
    · exact iff_of_false (Tablet.cput_error h).1 (by simp)
    · exact iff_of_true (Tablet.cput_ok h).1 ⟨kvs', rfl⟩
  | delete row column => exact iff_of_true trivial ⟨_, rfl⟩

/-- A request that writes. -/
inductive WriteRequest where
  /-- `Put`, `CPut` or `Delete`. -/
  | update (u : Update)
  /-- `ReplicatePut`, `ReplicateCPut` or `ReplicateDelete`. -/
  | replicate (u : Update)

/-- The update that is asked for. -/
def WriteRequest.written : WriteRequest → Update
  | update u => u
  | replicate u => u

/-- What becomes of a request. -/
structure Outcome where
  /-- The worker afterwards. -/
  worker : Worker
  /-- The status the caller sees. -/
  status : Status
  /-- The `Replicate` calls made: the worker called, and the update. -/
  calls : List (ℕ × Update)

namespace Worker

section Handlers

variable (hash : Bytes → UInt64) (workerId : ℕ)

/-- A handler of clients: its own part, and then, when that has not thrown or returned
an error, the loop over `getReplicasForReplication`. -/
def handlePrimary (env : Env) (u : Update) (w : Worker) : Outcome :=
  ⟨(handle hash workerId env u w).1, (handle hash workerId env u w).2,
    if (handle hash workerId env u w).2.isOk then
      (getReplicasForReplication numTablets workerId (tabletOf hash u.row)).map fun r => (r, u)
    else []⟩

/-- `Put`. -/
def put (env : Env) (row column value : Bytes) (w : Worker) : Outcome :=
  handlePrimary hash workerId env (.put row column value) w

/-- `CPut`. -/
def cput (env : Env) (row column cur new : Bytes) (w : Worker) : Outcome :=
  handlePrimary hash workerId env (.cput row column cur new) w

/-- `Delete`. -/
def delete (env : Env) (row column : Bytes) (w : Worker) : Outcome :=
  handlePrimary hash workerId env (.delete row column) w

/-- The six handlers. Those of the `Replicate` calls call nobody. -/
def serveWrite (env : Env) (w : Worker) : WriteRequest → Outcome
  | .update (.put row column value) => put hash workerId env row column value w
  | .update (.cput row column cur new) => cput hash workerId env row column cur new w
  | .update (.delete row column) => delete hash workerId env row column w
  | .replicate u => ⟨(replicate hash workerId env u w).1, (replicate hash workerId env u w).2, []⟩

/-- The workers a request has to be replicated to. -/
def followers : WriteRequest → List ℕ
  | .update u => getReplicasForReplication numTablets workerId (tabletOf hash u.row)
  | .replicate _ => []

/-- **The status can be believed**: when it is not `OK` nothing has changed and nobody
was called; when it is, the cell is written and every follower was called. -/
def Honest (env : Env) (w : Worker) (r : WriteRequest) : Prop :=
  ((serveWrite hash workerId env w r).status.isOk = false →
    (serveWrite hash workerId env w r).worker = w ∧
      (serveWrite hash workerId env w r).calls = []) ∧
  ((serveWrite hash workerId env w r).status.isOk = true →
    (∃ i, getTabletNumberOnThisWorker numTablets workerId (tabletOf hash r.written.row) = some i ∧
      ((serveWrite hash workerId env w r).worker.slots i).tablet.cells r.written.cell =
        r.written.result) ∧
      (serveWrite hash workerId env w r).calls =
        (followers hash workerId r).map fun f => (f, r.written))

/-- A checkpoint fails: the worker serves, has the tablet, would accept the update, and
this is one after which a checkpoint is taken, but its file cannot be opened. -/
def CheckpointFails (env : Env) (w : Worker) (u : Update) : Prop :=
  w.isUp = true ∧ ∃ i,
    getTabletNumberOnThisWorker numTablets workerId (tabletOf hash u.row) = some i ∧
      u.Accepted (w.slots i).tablet ∧ (w.slots i).checkpointDue = true ∧ env.opens = false

end Handlers

/-! ### The handlers, in one -/

section Outcomes

variable {hash : Bytes → UInt64} {workerId : ℕ}

theorem serveWrite_update (env : Env) (w : Worker) (u : Update) :
    serveWrite hash workerId env w (.update u) = handlePrimary hash workerId env u w := by
  cases u <;> rfl

/-- What the worker and the caller get is up to the part the handlers have in common. -/
theorem serveWrite_handle (env : Env) (w : Worker) (r : WriteRequest) :
    (serveWrite hash workerId env w r).worker = (handle hash workerId env r.written w).1 ∧
      (serveWrite hash workerId env w r).status = (handle hash workerId env r.written w).2 := by
  cases r with
  | update u =>
    rw [serveWrite_update]
    exact ⟨rfl, rfl⟩
  | replicate u =>
    rw [serveWrite, replicate_eq]
    exact ⟨rfl, rfl⟩

/-- The followers are called exactly when the status is `OK`. -/
theorem calls_serveWrite (env : Env) (w : Worker) (r : WriteRequest) :
    (serveWrite hash workerId env w r).calls =
      if (handle hash workerId env r.written w).2.isOk then
        (followers hash workerId r).map fun f => (f, r.written)
      else [] := by
  cases r with
  | update u =>
    rw [serveWrite_update]
    rfl
  | replicate u => simp [serveWrite, followers]

/-- The write of a client is its outcome, with the calls performed one after the
other. -/
theorem write_eq_calls (hash : Bytes → UInt64) (env : ℕ → Env) (u : Update) (p : ℕ)
    (σ : Cluster) :
    σ.write hash env u p =
      ((serveWrite hash p (env p) (σ p) (.update u)).calls.foldl
          (fun σ c => Cluster.replicateTo hash env c.2 σ c.1)
          (Function.update σ p (serveWrite hash p (env p) (σ p) (.update u)).worker),
        (serveWrite hash p (env p) (σ p) (.update u)).status) := by
  rw [serveWrite_update, Cluster.write, handlePrimary]
  rcases hok : (handle hash p (env p) u (σ p)).2.isOk with _ | _
  · simp [hok]
  · simp [hok, List.foldl_map]

/-! ### When the status can be believed -/

/-- An update that a slot accepts and reports as failed has been counted all the same. -/
theorem handle_of_checkpointFails {env : Env} {w : Worker} {u : Update}
    (h : CheckpointFails hash workerId env w u) :
    (handle hash workerId env u w).2.isOk = false ∧ (handle hash workerId env u w).1 ≠ w := by
  obtain ⟨hup, i, hi, hacc, hdue, hopens⟩ := h
  obtain ⟨kvs, hk⟩ := Update.accepted_iff.mp hacc
  rw [handle_of_isUp hup hi]
  rcases (w.slots i).update_cases env u with ⟨st, hst, -⟩ | ⟨kvs', -, hfine, -⟩ | ⟨kvs', -, -, he⟩
  · exact absurd (hk.symm.trans hst) (by simp)
  · exact absurd (hopens.symm.trans hfine.2) (by simp)
  · rw [he, hdue]
    refine ⟨rfl, fun heq => ?_⟩
    have hslot := congrFun (congrArg Worker.slots heq) i
    rw [slots_setSlot] at hslot
    exact absurd (congrArg Slot.updateRequestCount hslot) (Nat.succ_ne_self _)

/-- Otherwise a failure has changed nothing, -/
theorem handle_fst_of_not_isOk {env : Env} {w : Worker} {u : Update}
    (h : ¬CheckpointFails hash workerId env w u)
    (hst : (handle hash workerId env u w).2.isOk = false) :
    (handle hash workerId env u w).1 = w := by
  rcases handle_cases hash workerId env u w with ⟨he, -⟩ | ⟨i, hi, hup, he⟩
  · exact he
  · rw [he] at hst ⊢
    rcases hk : u.onTablet (w.slots i).tablet with st | kvs
    · rw [Slot.update_error hk, setSlot_self]
    · have hopens : (w.slots i).checkpointDue = true → env.opens = true := by
        intro hdue
        by_contra hno
        exact h ⟨hup, i, hi, Update.accepted_iff.mpr ⟨kvs, hk⟩, hdue, Bool.eq_false_iff.mpr hno⟩
      exact absurd ((Slot.isOk_update hopens).mpr ⟨kvs, hk⟩) (by rw [hst]; simp)

/-- and a success has always written the cell. -/
theorem cells_of_isOk {env : Env} {w : Worker} {u : Update}
    (hst : (handle hash workerId env u w).2.isOk = true) :
    ∃ i, getTabletNumberOnThisWorker numTablets workerId (tabletOf hash u.row) = some i ∧
      ((handle hash workerId env u w).1.slots i).tablet.cells u.cell = u.result := by
  rcases handle_cases hash workerId env u w with ⟨-, hno⟩ | ⟨i, hi, -, he⟩
  · exact absurd (hst.symm.trans hno) (by simp)
  · refine ⟨i, hi, ?_⟩
    rw [he] at hst ⊢
    rw [slots_setSlot]
    rcases hk : u.onTablet (w.slots i).tablet with st | kvs
    · rw [Slot.update_error hk, (Update.exec_cells_error hk).2] at hst
      exact absurd hst (by simp)
    · rw [Slot.tablet_update hk, Update.cells_onTablet hk, Function.update_self]

/-- **The status of a write can be believed exactly when no checkpoint fails.** -/
theorem honest_iff (hash : Bytes → UInt64) (workerId : ℕ) (env : Env) (w : Worker)
    (r : WriteRequest) :
    Honest hash workerId env w r ↔ ¬CheckpointFails hash workerId env w r.written := by
  obtain ⟨hworker, hstatus⟩ := @serveWrite_handle hash workerId env w r
  rw [Honest, hworker, hstatus, calls_serveWrite]
  constructor
  · rintro ⟨hfail, -⟩ hck
    obtain ⟨hst, hne⟩ := handle_of_checkpointFails hck
    exact hne (hfail hst).1
  · intro hck
    refine ⟨fun hst => ⟨handle_fst_of_not_isOk hck hst, ?_⟩, fun hst => ⟨cells_of_isOk hst, ?_⟩⟩
    · rw [hst, if_neg Bool.false_ne_true]
    · rw [hst, if_pos rfl]

end Outcomes

/-- **A `Put` that reports failure**: the twentieth write of a tablet, whose checkpoint
file cannot be opened, replaces the value of a cell in memory all the same, and the
followers are not called. -/
theorem put_fails_written :
    (serveWrite (fun _ => 0) 1 ⟨default, false⟩ nineteenPuts
        (.update (.put [1] [2] [9]))).status = Slot.unexpected ∧
      (nineteenPuts.slots 0).tablet.cells ([1], [2]) = some [3] ∧
      ((serveWrite (fun _ => 0) 1 ⟨default, false⟩ nineteenPuts
        (.update (.put [1] [2] [9]))).worker.slots 0).tablet.cells ([1], [2]) = some [9] ∧
      ¬Honest (fun _ => 0) 1 ⟨default, false⟩ nineteenPuts (.update (.put [1] [2] [9])) := by
  obtain ⟨hup, hslot⟩ := nineteenPuts_slot
  have hi : getTabletNumberOnThisWorker numTablets 1
      (tabletOf (fun _ => 0) (Update.put [1] [2] [9]).row) = some 0 := rfl
  obtain ⟨hworker, hstatus⟩ := @serveWrite_handle (fun _ => 0) 1
    ⟨default, false⟩ nineteenPuts (.update (.put [1] [2] [9]))
  have hst : (serveWrite (fun _ => 0) 1 ⟨default, false⟩ nineteenPuts
      (.update (.put [1] [2] [9]))).status = Slot.unexpected := by
    rw [hstatus, WriteRequest.written, handle_of_isUp hup hi, hslot]
    rfl
  have hbefore : (nineteenPuts.slots 0).tablet.cells ([1], [2]) = some [3] := by
    rw [hslot]
    decide
  have hafter : ((serveWrite (fun _ => 0) 1 ⟨default, false⟩ nineteenPuts
      (.update (.put [1] [2] [9]))).worker.slots 0).tablet.cells ([1], [2]) = some [9] := by
    rw [hworker, WriteRequest.written, handle_of_isUp hup hi, slots_setSlot, hslot,
      Slot.tablet_update rfl]
    decide
  refine ⟨hst, hbefore, hafter, fun hhonest => ?_⟩
  obtain ⟨hsame, -⟩ := hhonest.1 (by rw [hst]; rfl)
  rw [hsame, hbefore] at hafter
  exact absurd hafter (by decide)

end Worker

end PennCloud
