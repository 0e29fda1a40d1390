import PennCloud.Backend.Coordinator
import PennCloud.Backend.Logger

/-!
# A worker

`backend/worker.cc`: a worker keeps three tablets in memory, each with a command
log and a checkpoint file on disk and a count of the updates made since the last
checkpoint. What belongs to one tablet is a `PennCloud.Slot` here; the six
handlers that write share everything but the replication at their end, which is
`PennCloud.Worker.handle`.

An update that is accepted is a sequence of effects (`PennCloud.Slot.effects`):
the change in memory, the record in the log, the count, and at the tenth update
the checkpoint – its file truncated, written, the log cleared, the count reset.
The handler performs them in order. A checkpoint file that cannot be opened
makes `commitCheckpoint` throw at that point, and the call fails although the
update has been made; whether it can be opened is decided by the surroundings
(`PennCloud.Env`), as is the iteration order of the maps.

The rest is recovery: `PennCloud.Slot.recoverFromLocal` rebuilds a tablet from
its two files, `PennCloud.Worker.recoverAllTablets` does so for every tablet or
copies it from another worker, as the coordinator says. Where the process exits,
the result is `none`.
-/

namespace PennCloud

open Wire KeyValue

/-! ### One tablet of a worker -/

/-- What belongs to one of the three tablets of a worker. -/
structure Slot where
  /-- The tablet in memory. -/
  tablet : Tablet
  /-- The bytes of the command log file. -/
  log : Bytes
  /-- The bytes of the checkpoint file, `none` when there is no such file. -/
  checkpoint : Option Bytes
  /-- The entry of `updateRequestCount`. -/
  updateRequestCount : ℕ

/-- What a handler does not decide: the order in which the maps are listed, and
whether the checkpoint file can be opened for writing. -/
structure Env where
  /-- The iteration order of the maps. -/
  order : IterOrder
  /-- Whether `commitCheckpoint` can open its file. -/
  opens : Bool

/-- `MAX_UPDATE_COUNT`. -/
def maxUpdateCount : ℕ := 10

/-- One effect of a handler on the memory or the files of a tablet. -/
inductive Effect where
  /-- The change of the tablet in memory. -/
  | memory (kvs : Tablet)
  /-- A record appended to the log. -/
  | logCommand (cl : CommandLog)
  /-- One more update counted. -/
  | count
  /-- The checkpoint file opened, which truncates it. -/
  | truncateCheckpoint
  /-- The bytes of the checkpoint written. -/
  | writeCheckpoint (binaryData : Bytes)
  /-- The log truncated. -/
  | clearLog
  /-- The count reset. -/
  | resetCount

namespace Slot

/-- Perform one effect. -/
def perform (s : Slot) : Effect → Slot
  | .memory kvs => { s with tablet := kvs }
  | .logCommand cl => { s with log := Logger.logCommand s.log cl }
  | .count => { s with updateRequestCount := s.updateRequestCount + 1 }
  | .truncateCheckpoint => { s with checkpoint := some [] }
  | .writeCheckpoint binaryData => { s with checkpoint := some binaryData }
  | .clearLog => { s with log := Logger.clearLog s.log }
  | .resetCount => { s with updateRequestCount := 0 }

/-- Whether the next update is one after which a checkpoint is taken. -/
def checkpointDue (s : Slot) : Bool := s.updateRequestCount + 1 ≥ maxUpdateCount

/-- The effects of an update that is accepted and leads to the tablet `kvs`. -/
def effects (s : Slot) (env : Env) (u : Update) (kvs : Tablet) : List Effect :=
  -- the count is raised before it is compared with `MAX_UPDATE_COUNT`
  [.memory kvs, .logCommand u.record, .count] ++
    if s.checkpointDue && env.opens then
      [.truncateCheckpoint, .writeCheckpoint (serializeTablet env.order kvs), .clearLog,
        .resetCount]
    else []

/-- The status gRPC makes of an exception that leaves a handler. -/
def unexpected : Status := ⟨.unknown, ascii "Unexpected error in RPC handling"⟩

/-- An update of a tablet, up to the replication. -/
def update (s : Slot) (env : Env) (u : Update) : Slot × Status :=
  match u.onTablet s.tablet with
  | .error st => (s, st)
  | .ok kvs =>
    ((s.effects env u kvs).foldl perform s,
      if s.checkpointDue && !env.opens then unexpected else Status.OK)

/-- The slot after an update that is logged. -/
def logged (s : Slot) (u : Update) (kvs : Tablet) : Slot :=
  ⟨kvs, Logger.logCommand s.log u.record, s.checkpoint, s.updateRequestCount + 1⟩

/-- The slot after an update that is checkpointed. -/
def checkpointed (env : Env) (kvs : Tablet) : Slot :=
  ⟨kvs, [], some (serializeTablet env.order kvs), 0⟩

/-- **What an update can do**: it is refused and changes nothing; it is accepted
and checkpointed; or it is accepted and logged, and then fails if a checkpoint
was due. -/
theorem update_cases (s : Slot) (env : Env) (u : Update) :
    (∃ st, u.onTablet s.tablet = .error st ∧ s.update env u = (s, st)) ∨
      (∃ kvs, u.onTablet s.tablet = .ok kvs ∧ (s.checkpointDue = true ∧ env.opens = true) ∧
        s.update env u = (checkpointed env kvs, Status.OK)) ∨
      ∃ kvs, u.onTablet s.tablet = .ok kvs ∧ ¬(s.checkpointDue = true ∧ env.opens = true) ∧
        s.update env u =
          (s.logged u kvs, if s.checkpointDue then unexpected else Status.OK) := by
  rcases hu : u.onTablet s.tablet with st | kvs
  · exact Or.inl ⟨st, rfl, by simp only [update, hu]⟩
  · refine Or.inr ?_
    rcases hd : s.checkpointDue with _ | _ <;> rcases ho : env.opens with _ | _
    · exact Or.inr ⟨kvs, rfl, by simp, by simp [update, hu, effects, hd, logged, perform]⟩
    · exact Or.inr ⟨kvs, rfl, by simp, by simp [update, hu, effects, hd, logged, perform]⟩
    · exact Or.inr ⟨kvs, rfl, by simp, by simp [update, hu, effects, hd, ho, logged, perform]⟩
    · exact Or.inl ⟨kvs, rfl, by simp,
        by simp [update, hu, effects, hd, ho, checkpointed, perform, Logger.clearLog]⟩

/-- An update that is accepted leaves the tablet it leads to, whatever becomes of
the files. -/
theorem tablet_update {s : Slot} {u : Update} {kvs : Tablet} (h : u.onTablet s.tablet = .ok kvs)
    (env : Env) : (s.update env u).1.tablet = kvs := by
  rcases s.update_cases env u with ⟨st, hst, -⟩ | ⟨kvs', hk, -, he⟩ | ⟨kvs', hk, -, he⟩
  · rw [h] at hst
    exact absurd hst (by simp)
  · rw [h] at hk
    rw [he, Except.ok.inj hk]
    rfl
  · rw [h] at hk
    rw [he, Except.ok.inj hk]
    rfl

/-- An update that is refused changes nothing and says so. -/
theorem update_error {s : Slot} {u : Update} {st : Status} (h : u.onTablet s.tablet = .error st)
    (env : Env) : s.update env u = (s, st) := by
  simp only [update, h]

/-- An update answers `OK` when it is accepted and the checkpoint file, if it is
needed, can be opened. -/
theorem isOk_update {s : Slot} {env : Env} (ho : s.checkpointDue = true → env.opens = true)
    {u : Update} :
    (s.update env u).2.isOk = true ↔ ∃ kvs, u.onTablet s.tablet = .ok kvs := by
  rcases hu : u.onTablet s.tablet with st | kvs
  · simp [update_error hu, (Update.exec_cells_error hu).2]
  · have hno : (s.checkpointDue && !env.opens) = false := by
      simpa using ho
    simp [update, hu, hno]

/-! ### Recovery from the local files -/

/-- `retrieveCheckpoint`: the bytes of the checkpoint, none when the file is
missing or empty. -/
def retrieveCheckpoint (s : Slot) : Bytes := s.checkpoint.getD []

/-- The tablet of the checkpoint, `none` when it does not decode. -/
def checkpointTablet (s : Slot) : Option Tablet :=
  if (deserializeTablet ∅ s.retrieveCheckpoint).1 then
    some (deserializeTablet ∅ s.retrieveCheckpoint).2
  else none

/-- `recoverFromLocal`: the tablet rebuilt from the checkpoint and the log, `none`
when the process exits because one of them cannot be used. -/
def recoverFromLocal (s : Slot) : Option Tablet :=
  s.checkpointTablet.bind (replayLogs (Logger.getLogs s.log))

/-- Recovery looks at the two files only. -/
theorem recoverFromLocal_congr {s s' : Slot} (hlog : s.log = s'.log)
    (hck : s.checkpoint = s'.checkpoint) : s.recoverFromLocal = s'.recoverFromLocal := by
  rw [recoverFromLocal, recoverFromLocal, checkpointTablet, checkpointTablet, retrieveCheckpoint,
    retrieveCheckpoint, hlog, hck]

theorem noEmptyRow_checkpointTablet {s : Slot} {tablet : Tablet}
    (h : s.checkpointTablet = some tablet) : tablet.NoEmptyRow := by
  rw [checkpointTablet] at h
  split_ifs at h
  obtain rfl := Option.some.inj h
  exact noEmptyRow_deserializeTablet Tablet.noEmptyRow_empty _

theorem noEmptyRow_recoverFromLocal {s : Slot} {tablet : Tablet}
    (h : s.recoverFromLocal = some tablet) : tablet.NoEmptyRow := by
  obtain ⟨base, hbase, hreplay⟩ := Option.bind_eq_some_iff.mp h
  exact noEmptyRow_replayLogs (noEmptyRow_checkpointTablet hbase) hreplay

end Slot

/-! ### A worker -/

/-- The state of a worker process and of its files. -/
structure Worker where
  /-- The three tablets. -/
  slots : Fin 3 → Slot
  /-- Whether the process is running. -/
  running : Bool
  /-- `admin_workerUp`. -/
  adminWorkerUp : Bool

/-- A request of a client, or of another worker. -/
inductive Request where
  /-- `Get`. -/
  | get (row column : Bytes)
  /-- `Put`, `CPut` or `Delete`. -/
  | update (u : Update)
  /-- `ReplicatePut`, `ReplicateCPut` or `ReplicateDelete`. -/
  | replicate (u : Update)

namespace Worker

/-- A worker is up when its process runs and has not been shut down. -/
def isUp (w : Worker) : Bool := w.running && w.adminWorkerUp

/-- The worker once it is told to serve again. -/
def up (w : Worker) : Worker := { w with adminWorkerUp := true }

/-- The worker once it is shut down. -/
def down (w : Worker) : Worker := { w with adminWorkerUp := false }

/-- Change one slot. -/
def setSlot (w : Worker) (i : Fin 3) (s : Slot) : Worker :=
  { w with slots := Function.update w.slots i s }

/-- Change the tablet in memory of one slot. -/
def setTablet (w : Worker) (i : Fin 3) (kvs : Tablet) : Worker :=
  w.setSlot i { w.slots i with tablet := kvs }

@[simp] theorem isUp_setSlot (w : Worker) (i : Fin 3) (s : Slot) :
    (w.setSlot i s).isUp = w.isUp := rfl

@[simp] theorem slots_setSlot (w : Worker) (i : Fin 3) (s : Slot) :
    (w.setSlot i s).slots i = s :=
  Function.update_self _ _ _

theorem setSlot_self (w : Worker) (i : Fin 3) : w.setSlot i (w.slots i) = w := by
  rw [setSlot, Function.update_eq_self]

theorem slots_setSlot_of_ne (w : Worker) {i j : Fin 3} (h : j ≠ i) (s : Slot) :
    (w.setSlot i s).slots j = w.slots j :=
  Function.update_of_ne h _ _

/-- The status of a call to a process that is not there. -/
def unreachable : Status := ⟨.unavailable, ascii "failed to connect to all addresses"⟩

/-- The status of a worker that has been shut down. -/
def shutDown : Status := ⟨.unavailable, ascii "Worker is shut down"⟩

/-- The status of a worker that does not hold the tablet. -/
def notHere : Status := ⟨.notFound, ascii "Key does not belong in this worker"⟩

section Handlers

variable (hash : Bytes → UInt64) (workerId : ℕ)

/-- The part the six handlers that write have in common: everything up to the
replication. -/
def handle (env : Env) (u : Update) (w : Worker) : Worker × Status :=
  -- the call of a process that is not there fails in the client, not in the handler
  if !w.running then (w, unreachable)
  else if !w.adminWorkerUp then (w, shutDown)
  else
    match getTabletNumberOnThisWorker numTablets workerId (tabletOf hash u.row) with
    | none => (w, notHere)
    | some i => (w.setSlot i ((w.slots i).update env u).1, ((w.slots i).update env u).2)

/-- `ReplicatePut`. -/
def replicatePut (env : Env) (row column value : Bytes) (w : Worker) : Worker × Status :=
  handle hash workerId env (.put row column value) w

/-- `ReplicateCPut`. -/
def replicateCPut (env : Env) (row column cur new : Bytes) (w : Worker) : Worker × Status :=
  handle hash workerId env (.cput row column cur new) w

/-- `ReplicateDelete`. -/
def replicateDelete (env : Env) (row column : Bytes) (w : Worker) : Worker × Status :=
  handle hash workerId env (.delete row column) w

/-- The `Replicate` handler a client calls for an update. -/
def replicate (env : Env) : Update → Worker → Worker × Status
  | .put row column value => replicatePut hash workerId env row column value
  | .cput row column cur new => replicateCPut hash workerId env row column cur new
  | .delete row column => replicateDelete hash workerId env row column

theorem replicate_eq (env : Env) (u : Update) :
    replicate hash workerId env u = handle hash workerId env u := by
  cases u <;> rfl

/-- `Get`. -/
def get (row column : Bytes) (w : Worker) : Except Status Bytes :=
  if !w.running then .error unreachable
  else if !w.adminWorkerUp then .error shutDown
  else
    match getTabletNumberOnThisWorker numTablets workerId (tabletOf hash row) with
    | none => .error notHere
    | some i => (w.slots i).tablet.get row column

/-- The worker after a request, the calls to other workers left aside. -/
def serve (env : Env) (w : Worker) : Request → Worker
  | .get _ _ => w
  | .update u => (handle hash workerId env u w).1
  | .replicate u => (replicate hash workerId env u w).1

end Handlers

/-! ### What a handler changes -/

section Frame

variable {hash : Bytes → UInt64} {workerId : ℕ} {w : Worker}

/-- A worker that is not up refuses, and does not change. -/
theorem handle_of_not_isUp (h : w.isUp = false) (env : Env) (u : Update) :
    (handle hash workerId env u w).1 = w ∧ (handle hash workerId env u w).2.isOk = false := by
  rw [handle]
  rcases hr : w.running with _ | _
  · exact ⟨rfl, rfl⟩
  · rcases ha : w.adminWorkerUp with _ | _
    · exact ⟨rfl, rfl⟩
    · simp [isUp, hr, ha] at h

/-- A worker that is up updates the slot of the tablet, and nothing else. -/
theorem handle_of_isUp (h : w.isUp = true) {u : Update} {i : Fin 3}
    (hi : getTabletNumberOnThisWorker numTablets workerId (tabletOf hash u.row) = some i)
    (env : Env) : handle hash workerId env u w =
      (w.setSlot i ((w.slots i).update env u).1, ((w.slots i).update env u).2) := by
  obtain ⟨hr, ha⟩ : w.running = true ∧ w.adminWorkerUp = true := by simpa [isUp] using h
  simp only [handle, hr, ha, hi, Bool.not_true, Bool.false_eq_true, if_false]

/-- **What a handler can do to a worker**: nothing, the call having failed, or an
update of the slot of the tablet. -/
theorem handle_cases (hash : Bytes → UInt64) (workerId : ℕ) (env : Env) (u : Update) (w : Worker) :
    ((handle hash workerId env u w).1 = w ∧ (handle hash workerId env u w).2.isOk = false) ∨
      ∃ i, getTabletNumberOnThisWorker numTablets workerId (tabletOf hash u.row) = some i ∧
        w.isUp = true ∧ handle hash workerId env u w =
          (w.setSlot i ((w.slots i).update env u).1, ((w.slots i).update env u).2) := by
  rcases hup : w.isUp with _ | _
  · exact Or.inl (handle_of_not_isUp hup env u)
  · rcases hi : getTabletNumberOnThisWorker numTablets workerId (tabletOf hash u.row) with _ | i
    · obtain ⟨hr, ha⟩ : w.running = true ∧ w.adminWorkerUp = true := by simpa [isUp] using hup
      refine Or.inl ?_
      simp only [handle, hr, ha, hi, Bool.not_true, Bool.false_eq_true, if_false]
      exact ⟨trivial, rfl⟩
    · exact Or.inr ⟨i, rfl, rfl, handle_of_isUp hup hi env⟩

@[simp] theorem isUp_handle (env : Env) (u : Update) :
    (handle hash workerId env u w).1.isUp = w.isUp := by
  rcases handle_cases hash workerId env u w with ⟨h, -⟩ | ⟨i, -, -, h⟩
  · rw [h]
  · rw [h, isUp_setSlot]

/-- The slots of the other tablets are left alone. -/
theorem slots_handle_of_ne {env : Env} {u : Update} {j : Fin 3}
    (h : getTabletNumberOnThisWorker numTablets workerId (tabletOf hash u.row) ≠ some j) :
    (handle hash workerId env u w).1.slots j = w.slots j := by
  rcases handle_cases hash workerId env u w with ⟨he, -⟩ | ⟨i, hi, -, he⟩
  · rw [he]
  · rw [he, slots_setSlot_of_ne]
    rintro rfl
    exact h hi

end Frame

/-! ### Copying a tablet -/

/-- `CHUNK_SIZE`. -/
def chunkSize : ℕ := 1024 * 1024

/-- `CopyTablet`, on the worker that is asked: the chunks it streams, and the
status. -/
def copyTablet (workerId : ℕ) (ord : IterOrder) (tabletId : ℕ) (w : Worker) :
    List Bytes × Status :=
  if !w.running then ([], unreachable)
  else if !w.adminWorkerUp then ([], shutDown)
  else
    match getTabletNumberOnThisWorker numTablets workerId tabletId with
    | none => ([], notHere)
    | some i => (chunks chunkSize (serializeTablet ord (w.slots i).tablet), Status.OK)

/-- `KeyValueStoreClient::CopyTablet`: the chunks put together, or the text of the
error. -/
def copyTabletClient (reply : List Bytes × Status) : Bytes :=
  -- the caller cannot tell the text of an error from the bytes of a tablet
  if reply.2.isOk then reply.1.flatten else reply.2.err

/-- The worker a client of `workerClientPtrs` is for: a worker has clients for
the other workers only. -/
def workerClientPtrs (workerId : ℕ) (host : Bytes) : Option ℕ :=
  workerIds.find? fun i => i ≠ workerId ∧ address i = host

/-! ### Recovery of a worker -/

/-- The tablets `recoverAllTablets` goes through, each with the host it is
recovered from. -/
def recoverPlan : List Bytes → ℕ → List (Bytes × ℕ)
  | [], _ => []
  | host :: hosts, tablet =>
    (host, tablet) :: recoverPlan hosts ((tablet + numTablets - 2) % numTablets + 1)

/-- One round of `recoverAllTablets`. The tablet is rebuilt from the local files
when all workers that hold it are dead, and copied from a worker otherwise;
`copy i t` is what the client of worker `i` returns for tablet `t`. The process
is gone when the tablet is not one of its own, when the local files cannot be
used, and when there is no client for the host. -/
def recoverTablet (workerId : ℕ) (copy : ℕ → ℕ → Bytes) (w : Worker) (p : Bytes × ℕ) :
    Option Worker :=
  match getTabletNumberOnThisWorker numTablets workerId p.2 with
  | none => none
  | some i =>
    if p.1 = allDead then ((w.slots i).recoverFromLocal).map (w.setTablet i)
    else
      match workerClientPtrs workerId p.1 with
      | none => none
      -- the tablet is cleared, and whether the bytes could be read is not looked at
      | some c => some (w.setTablet i (deserializeTablet ∅ (copy c p.2)).2)

/-- `recoverAllTablets`, given the string `WorkerLookup` returned. -/
def recoverAllTablets (workerId : ℕ) (copy : ℕ → ℕ → Bytes) (res : Bytes) (w : Worker) :
    Option Worker :=
  if res.take 3 = ascii "ERR" then none
  else (recoverPlan (getlines 59 res) workerId).foldlM (recoverTablet workerId copy) w

/-- A process that is gone. -/
def exit (w : Worker) : Worker := { w with running := false }

/-- `AdminConsole`: the worker then, the status, and the `success` of the
response. -/
def adminConsole (workerId : ℕ) (copy : ℕ → ℕ → Bytes) (res password command : Bytes)
    (w : Worker) : Worker × Status × Bool :=
  if !w.running then (w, unreachable, false)
  else if password ≠ ascii "admin" then
    (w, ⟨.invalidArgument, ascii "Invalid admin password"⟩, false)
  else if command = ascii "SHUTDOWN" then (w.down, Status.OK, true)
  else if command = ascii "RESTART" then
    if w.adminWorkerUp then (w, Status.OK, true)
    else
      match recoverAllTablets workerId copy res w with
      | none => (w.exit, unreachable, false)
      | some w' => (w'.up, Status.OK, true)
  -- for an unknown command `success` is set to false first, and then to true as for all
  else (w, Status.OK, true)

theorem adminConsole_shutdown {w : Worker} (hrun : w.running = true) (workerId : ℕ)
    (copy : ℕ → ℕ → Bytes) (res : Bytes) :
    (w.adminConsole workerId copy res (ascii "admin") (ascii "SHUTDOWN")).1 = w.down := by
  simp [adminConsole, hrun, down]

theorem adminConsole_restart {w w' : Worker} (hrun : w.running = true) {workerId : ℕ}
    {copy : ℕ → ℕ → Bytes} {res : Bytes}
    (hrec : recoverAllTablets workerId copy res w.down = some w') :
    (w.down.adminConsole workerId copy res (ascii "admin") (ascii "RESTART")).1 = w'.up := by
  have hne : ascii "RESTART" ≠ ascii "SHUTDOWN" := by decide
  have hdown : w.down.running = true ∧ w.down.adminWorkerUp = false := ⟨hrun, rfl⟩
  simp [adminConsole, hdown, hne, hrec]

/-- The memory of a process that has just been started. -/
def fresh (w : Worker) : Worker where
  slots := fun i => { w.slots i with tablet := ∅, updateRequestCount := 0 }
  running := true
  adminWorkerUp := true

/-- `main`: a new process on the files of the worker recovers its tablets before
it serves. -/
def main (workerId : ℕ) (copy : ℕ → ℕ → Bytes) (res : Bytes) (w : Worker) : Worker :=
  match recoverAllTablets workerId copy res w.fresh with
  | none => w.fresh.exit
  | some w' => w'

end Worker

end PennCloud
