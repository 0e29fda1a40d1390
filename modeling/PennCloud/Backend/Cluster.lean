import PennCloud.Backend.Recovery

/-!
# The six workers

The workers together, and what a client, an administrator or the end of a
process does to them, one step after the other. A write goes to the worker the
coordinator names (`PennCloud.Cluster.lookup`), which updates its own tablet and
then calls the replicas; a worker that is told to restart copies its tablets
from the workers the coordinator names. The coordinator's map of live workers is
taken to be accurate here; what a lag in it does is another story (`PennCloud.System`).

The view all statements are made in is that of one tablet: `PennCloud.Worker.slotAt`
is the slot a worker has for it. `PennCloud.Cluster.slotAt_write` says what a
write does to every copy of the tablet at once, and
`PennCloud.Cluster.tablet_recovered` what a recovery does.

* `PennCloud.Cluster.agree_of_reaches` – the copies of a tablet on the workers
  that are up are the same, through all failures and restarts, as long as every
  tablet copied fits the format and a worker that has to checkpoint a tablet can
  open the file. `PennCloud.Cluster.wide_restart_disagrees` is a run that copies a
  row of `2 ^ 32` columns.
-/

namespace PennCloud

open Wire KeyValue

/-! ### One tablet on one worker -/

namespace Worker

/-- What worker `id` has for tablet `t`. -/
def slotAt (id t : ℕ) (w : Worker) : Slot := w.slots (slotOf id t)

section

variable {id t : ℕ} {w : Worker} {hash : Bytes → UInt64}

/-- A candidate holds the tablet. -/
theorem getTabletNumber_slotOf (ht : IsId numTablets t) (hc : id ∈ candidateIds numTablets t) :
    getTabletNumberOnThisWorker numTablets id t = some (slotOf id t) := by
  have hid := isId_candidate ht hc
  obtain ⟨i, hi⟩ := Option.isSome_iff_exists.mp
    ((getTabletNumberOnThisWorker_isSome_iff (by decide) ht hid).mpr hc)
  rw [slotOf, hi, Option.getD_some]

theorem storedTablet_slotOf (ht : IsId numTablets t) (hc : id ∈ candidateIds numTablets t) :
    storedTablet numTablets id (slotOf id t) = t :=
  (eq_storedTablet (getTabletNumber_slotOf ht hc)).symm

/-- A worker that is up answers from the tablet it holds. -/
theorem get_of_isUp {row : Bytes} (hc : id ∈ candidateIds numTablets (tabletOf hash row))
    (hup : w.isUp = true) (column : Bytes) :
    get hash id row column w = (slotAt id (tabletOf hash row) w).tablet.get row column := by
  obtain ⟨hr, ha⟩ : w.running = true ∧ w.adminWorkerUp = true := by simpa [isUp] using hup
  simp only [get, hr, ha, getTabletNumber_slotOf (isId_tabletOf hash row) hc, Bool.not_true,
    Bool.false_eq_true, if_false]
  rfl

/-- **An update of the tablet** reaches its slot. -/
theorem slotAt_handle {u : Update} (hc : id ∈ candidateIds numTablets (tabletOf hash u.row))
    (hup : w.isUp = true) (env : Env) :
    slotAt id (tabletOf hash u.row) (handle hash id env u w).1 =
        ((slotAt id (tabletOf hash u.row) w).update env u).1 ∧
      (handle hash id env u w).2 = ((slotAt id (tabletOf hash u.row) w).update env u).2 := by
  rw [handle_of_isUp hup (getTabletNumber_slotOf (isId_tabletOf hash u.row) hc), slotAt,
    slots_setSlot]
  exact ⟨rfl, rfl⟩

/-- An update that is refused leaves the worker as it was. -/
theorem handle_of_error {u : Update} (hc : id ∈ candidateIds numTablets (tabletOf hash u.row))
    (hup : w.isUp = true) {st : Status}
    (hk : u.onTablet (slotAt id (tabletOf hash u.row) w).tablet = .error st) (env : Env) :
    handle hash id env u w = (w, st) := by
  rw [handle_of_isUp hup (getTabletNumber_slotOf (isId_tabletOf hash u.row) hc), ← slotAt,
    Slot.update_error hk, slotAt, setSlot_self]

/-- An update of another tablet does not. -/
theorem slotAt_handle_of_ne {u : Update} (ht : IsId numTablets t)
    (hc : id ∈ candidateIds numTablets t) (hne : tabletOf hash u.row ≠ t) (env : Env) :
    slotAt id t (handle hash id env u w).1 = slotAt id t w := by
  refine slots_handle_of_ne fun hi => hne ?_
  exact (eq_storedTablet hi).trans (storedTablet_slotOf ht hc)

/-- What worker `id` has in memory for a cell. -/
def cellAt (hash : Bytes → UInt64) (id : ℕ) (row column : Bytes) (w : Worker) : Option Bytes :=
  (slotAt id (tabletOf hash row) w).tablet.cells (row, column)

variable {row column : Bytes}

/-- A worker that is up returns what it has. -/
theorem get_of_cellAt (hc : id ∈ candidateIds numTablets (tabletOf hash row))
    (hup : w.isUp = true) {value : Bytes} (h : cellAt hash id row column w = some value) :
    get hash id row column w = .ok value := by
  rw [get_of_isUp hc hup]
  have hanswer := Tablet.isAnswer_get (slotAt id (tabletOf hash row) w).tablet row column
  rcases hget : (slotAt id (tabletOf hash row) w).tablet.get row column with st | value'
  · rw [hget] at hanswer
    exact absurd (h.symm.trans hanswer.1) (by simp)
  · rw [hget] at hanswer
    exact congrArg Except.ok (Option.some.inj (hanswer.symm.trans h))

/-- A worker that is not up cannot be read. -/
theorem get_of_not_isUp (hup : w.isUp = false) (row column : Bytes) :
    ∃ st, get hash id row column w = .error st ∧ st.code = .unavailable := by
  rw [get]
  rcases hr : w.running with _ | _
  · exact ⟨unreachable, rfl, rfl⟩
  · rcases ha : w.adminWorkerUp with _ | _
    · exact ⟨shutDown, rfl, rfl⟩
    · simp [isUp, hr, ha] at hup

/-- An update that is accepted sets its cell. -/
theorem cellAt_handle {u : Update} (hcell : u.cell = (row, column))
    (hc : id ∈ candidateIds numTablets (tabletOf hash u.row)) (hup : w.isUp = true)
    {kvs : Tablet} (hk : u.onTablet (slotAt id (tabletOf hash u.row) w).tablet = .ok kvs)
    (env : Env) : cellAt hash id row column (handle hash id env u w).1 = u.result := by
  obtain rfl : u.row = row := congrArg Prod.fst hcell
  rw [cellAt, (slotAt_handle hc hup env).1, Slot.tablet_update hk, Update.cells_onTablet hk,
    ← hcell, Function.update_self]

/-- **An update of another cell** leaves this one alone. -/
theorem cellAt_handle_of_ne {u : Update} (hc : id ∈ candidateIds numTablets (tabletOf hash row))
    (hne : u.cell ≠ (row, column)) (env : Env) :
    cellAt hash id row column (handle hash id env u w).1 = cellAt hash id row column w := by
  rcases eq_or_ne (tabletOf hash u.row) (tabletOf hash row) with heq | htab
  · rcases hup : w.isUp with _ | _
    · rw [(handle_of_not_isUp hup env u).1]
    · rw [← heq] at hc
      rcases hk : u.onTablet (slotAt id (tabletOf hash u.row) w).tablet with st | kvs
      · rw [handle_of_error hc hup hk]
      · rw [cellAt, cellAt, ← heq, (slotAt_handle hc hup env).1, Slot.tablet_update hk,
          Update.cells_onTablet hk, Function.update_of_ne hne.symm]
  · rw [cellAt, cellAt, slotAt_handle_of_ne (isId_tabletOf hash row) hc htab]

end

end Worker

/-! ### The workers together -/

/-- The workers, by their number. -/
abbrev Cluster := ℕ → Worker

/-- The worker that listens on an address. -/
def workerAt (host : Bytes) : Option ℕ := workerIds.find? fun i => address i = host

theorem workerAt_address : ∀ i ∈ workerIds, workerAt (address i) = some i := by
  decide

namespace Cluster

open Worker

/-- The map of a coordinator that knows which workers are up. -/
def isAlive (σ : Cluster) : ℕ → Bool := fun i => (σ i).isUp

/-- A master node with a given map of live workers. -/
def master (isAlive : ℕ → Bool) : MasterNode := ⟨fun _ => 0, isAlive⟩

/-- The worker a client is sent to for a row. -/
def lookup (hash : Bytes → UInt64) (isAlive : ℕ → Bool) (row : Bytes) : Option ℕ :=
  match (master isAlive).lookup hash row with
  | .error _ => none
  | .ok host => workerAt host

theorem lookup_eq (hash : Bytes → UInt64) (isAlive : ℕ → Bool) (row : Bytes) :
    lookup hash isAlive row = firstAlive isAlive (tabletOf hash row) := by
  have hmap : (master isAlive).isAlive = isAlive := rfl
  rw [lookup, MasterNode.lookup_eq, hmap]
  rcases h : firstAlive isAlive (tabletOf hash row) with _ | p
  · rfl
  · have hp := isId_candidate (isId_tabletOf hash row) (firstAlive_some h).1
    exact workerAt_address p (mem_workerIds.mpr hp)

/-- The call of a replica, whose outcome is only logged. -/
def replicateTo (hash : Bytes → UInt64) (env : ℕ → Env) (u : Update) (σ : Cluster) (r : ℕ) :
    Cluster :=
  Function.update σ r (replicate hash r (env r) u (σ r)).1

/-- `Put`, `CPut` or `Delete` on worker `p`: its own part and, if that went well,
the calls of the replicas. -/
def write (hash : Bytes → UInt64) (env : ℕ → Env) (u : Update) (p : ℕ) (σ : Cluster) :
    Cluster × Status :=
  let (w, st) := handle hash p (env p) u (σ p)
  if st.isOk then
    ((getReplicasForReplication numTablets p (tabletOf hash u.row)).foldl (replicateTo hash env u)
      (Function.update σ p w), st)
  else (Function.update σ p w, st)

/-- `WorkerLookup`, as the string worker `id` gets. -/
def workerLookup (isAlive : ℕ → Bool) (id : ℕ) : Bytes :=
  workerLookupString ((master isAlive).workerLookup id)

/-- What can happen to the workers. -/
inductive Event where
  /-- A client writes. -/
  | write (u : Update) (env : ℕ → Env)
  /-- A worker gets a command of the admin console. -/
  | adminConsole (id : ℕ) (ord : ℕ → IterOrder) (password command : Bytes)
  /-- The process of a worker ends. -/
  | exit (id : ℕ)
  /-- The process of a worker that has ended is started again. -/
  | main (id : ℕ) (ord : ℕ → IterOrder)

/-- One step of the workers. -/
def step (hash : Bytes → UInt64) (σ : Cluster) : Event → Cluster
  | .write u env =>
    match lookup hash σ.isAlive u.row with
    | none => σ
    | some p => (σ.write hash env u p).1
  | .adminConsole id ord password command =>
    Function.update σ id ((σ id).adminConsole id (copyFrom ord σ) (workerLookup σ.isAlive id)
      password command).1
  | .exit id => Function.update σ id (σ id).exit
  | .main id ord =>
    if (σ id).running then σ
    else Function.update σ id ((σ id).main id (copyFrom ord σ) (workerLookup σ.isAlive id))

theorem step_shutdown {hash : Bytes → UInt64} {σ : Cluster} {id : ℕ}
    (hrun : (σ id).running = true) (ord : ℕ → IterOrder) :
    step hash σ (.adminConsole id ord (ascii "admin") (ascii "SHUTDOWN")) =
      Function.update σ id (σ id).down := by
  rw [step, adminConsole_shutdown hrun]

theorem step_restart {hash : Bytes → UInt64} {σ : Cluster} {id : ℕ} {w w' : Worker}
    (hw : σ id = w.down) (hrun : w.running = true) {ord : ℕ → IterOrder}
    (hrec : recoverAllTablets id (copyFrom ord σ) (workerLookup σ.isAlive id) (σ id) = some w') :
    step hash σ (.adminConsole id ord (ascii "admin") (ascii "RESTART")) =
      Function.update σ id w'.up := by
  rw [hw] at hrec
  rw [step, hw, adminConsole_restart hrun hrec]

/-! ### What a write does -/

section Write

variable {hash : Bytes → UInt64} {env : ℕ → Env} {u : Update} {p t : ℕ} {σ : Cluster}

/-- The calls of replicas, each on its own worker. -/
theorem foldl_replicateTo {l : List ℕ} (hl : l.Nodup) (σ : Cluster) (q : ℕ) :
    l.foldl (replicateTo hash env u) σ q =
      if q ∈ l then (handle hash q (env q) u (σ q)).1 else σ q := by
  induction l generalizing σ with
  | nil => simp
  | cons r l ih =>
    obtain ⟨hr, hl'⟩ := List.nodup_cons.mp hl
    rw [List.foldl_cons, ih hl', replicateTo, replicate_eq]
    rcases eq_or_ne q r with rfl | hne
    · rw [if_neg hr, Function.update_self, if_pos List.mem_cons_self]
    · simp [hne]

/-- A candidate replicates to other candidates. -/
theorem replicas_spec (ht : IsId numTablets t) (hp : p ∈ candidateIds numTablets t) :
    (getReplicasForReplication numTablets p t).Nodup ∧
      p ∉ getReplicasForReplication numTablets p t ∧
      ∀ r ∈ getReplicasForReplication numTablets p t, r ∈ candidateIds numTablets t := by
  have hnd := nodup_candidateIds (n := numTablets) (by decide) ht
  simp only [candidateIds, List.nodup_cons, List.mem_cons, List.not_mem_nil, or_false, not_or,
    not_false_eq_true, List.nodup_nil, and_true] at hnd
  obtain ⟨⟨h1, h2⟩, h3⟩ := hnd
  rcases candidateIds_cases (by decide) ht hp with ⟨rfl, hr⟩ | ⟨rfl, hr⟩ | ⟨rfl, hr⟩
  · rw [hr]
    simp [candidateIds, h1, h2, h3]
  · rw [hr]
    simp [candidateIds, h3]
  · rw [hr]
    simp

/-- **What a write does to the workers**: the one it is sent to handles it, and if
that went well so do its replicas. -/
theorem write_apply (hp : p ∈ candidateIds numTablets (tabletOf hash u.row)) (σ : Cluster)
    (q : ℕ) : (σ.write hash env u p).1 q =
      if q = p ∨ (q ∈ getReplicasForReplication numTablets p (tabletOf hash u.row) ∧
        (σ.write hash env u p).2.isOk = true) then (handle hash q (env q) u (σ q)).1 else σ q := by
  obtain ⟨hnd, hself, -⟩ := replicas_spec (isId_tabletOf hash u.row) hp
  rcases hok : (handle hash p (env p) u (σ p)).2.isOk with _ | _
  · have hw : σ.write hash env u p = (Function.update σ p (handle hash p (env p) u (σ p)).1,
        (handle hash p (env p) u (σ p)).2) := by
      simp [write, hok]
    rw [hw]
    rcases eq_or_ne q p with rfl | hne
    · simp
    · simp [hne, hok]
  · have hw : σ.write hash env u p =
        ((getReplicasForReplication numTablets p (tabletOf hash u.row)).foldl
          (replicateTo hash env u) (Function.update σ p (handle hash p (env p) u (σ p)).1),
        (handle hash p (env p) u (σ p)).2) := by
      simp [write, hok]
    rw [hw]
    dsimp only
    rw [foldl_replicateTo hnd]
    rcases eq_or_ne q p with rfl | hne
    · simp [hself]
    · simp [hne, hok]

theorem write_status (hash : Bytes → UInt64) (env : ℕ → Env) (u : Update) (p : ℕ) (σ : Cluster) :
    (σ.write hash env u p).2 = (handle hash p (env p) u (σ p)).2 := by
  rw [write]
  split
  split_ifs <;> simp_all

@[simp] theorem isUp_write (hp : p ∈ candidateIds numTablets (tabletOf hash u.row)) (q : ℕ) :
    ((σ.write hash env u p).1 q).isUp = (σ q).isUp := by
  rw [write_apply hp]
  split_ifs
  · exact isUp_handle _ _
  · rfl

/-- A worker that is down does not change. -/
theorem write_of_not_isUp (hp : p ∈ candidateIds numTablets (tabletOf hash u.row)) {q : ℕ}
    (hq : (σ q).isUp = false) : (σ.write hash env u p).1 q = σ q := by
  rw [write_apply hp]
  split_ifs
  · exact (handle_of_not_isUp hq _ _).1
  · rfl

/-- The other tablets do not change. -/
theorem slotAt_write_of_ne (hp : p ∈ candidateIds numTablets (tabletOf hash u.row))
    (ht : IsId numTablets t) {q : ℕ} (hq : q ∈ candidateIds numTablets t)
    (hne : tabletOf hash u.row ≠ t) :
    slotAt q t ((σ.write hash env u p).1 q) = slotAt q t (σ q) := by
  rw [write_apply hp]
  split_ifs
  · exact slotAt_handle_of_ne ht hq hne _
  · rfl

/-- **Every copy that is up makes the update**, when the write went well and was
sent to the first worker that is up. -/
theorem slotAt_write (hp : firstAlive σ.isAlive (tabletOf hash u.row) = some p)
    (hok : (σ.write hash env u p).2.isOk = true) {q : ℕ}
    (hq : q ∈ candidateIds numTablets (tabletOf hash u.row)) (hup : (σ q).isUp = true) :
    slotAt q (tabletOf hash u.row) ((σ.write hash env u p).1 q) =
      ((slotAt q (tabletOf hash u.row) (σ q)).update (env q) u).1 := by
  have hserves : q = p ∨ (q ∈ getReplicasForReplication numTablets p (tabletOf hash u.row) ∧
      (σ.write hash env u p).2.isOk = true) := by
    rcases mem_of_firstAlive (isId_tabletOf hash u.row) hp hq hup with h | h
    · exact Or.inl h
    · exact Or.inr ⟨h, hok⟩
  rw [write_apply (firstAlive_some hp).1, if_pos hserves]
  exact (slotAt_handle hq hup _).1

/-- A write that did not go well was refused, unless the checkpoint file could not
be opened. -/
theorem write_refused (hp : firstAlive σ.isAlive (tabletOf hash u.row) = some p)
    (hopens : (slotAt p (tabletOf hash u.row) (σ p)).checkpointDue = true →
      (env p).opens = true)
    (hok : (σ.write hash env u p).2.isOk = false) : (σ.write hash env u p).1 = σ := by
  obtain ⟨hpc, hup⟩ := firstAlive_some hp
  funext q
  rw [write_apply hpc, hok]
  rcases eq_or_ne q p with rfl | hne
  · rw [if_pos (Or.inl rfl)]
    rw [write_status, (slotAt_handle hpc hup _).2] at hok
    rcases hk : u.onTablet (slotAt q (tabletOf hash u.row) (σ q)).tablet with st | kvs
    · rw [handle_of_error hpc hup hk]
    · rw [Bool.eq_false_iff, Ne, Slot.isOk_update hopens] at hok
      exact absurd ⟨kvs, hk⟩ hok
  · rw [if_neg (by simp [hne])]

end Write

/-! ### What the other steps do -/

section Restart

variable {hash : Bytes → UInt64} {σ : Cluster} {id : ℕ} {w : Worker}

/-- The worker has not come up, and its files are the same. -/
structure Kept (σ : Cluster) (id : ℕ) (w : Worker) : Prop where
  /-- The logs are the same. -/
  log : ∀ i, (w.slots i).log = ((σ id).slots i).log
  /-- The checkpoints are the same. -/
  checkpoint : ∀ i, (w.slots i).checkpoint = ((σ id).slots i).checkpoint
  /-- It is up only if it was. -/
  same : w.isUp = true → w = σ id

theorem kept_exit (σ : Cluster) (id : ℕ) : Kept σ id (σ id).exit := by
  refine ⟨fun _ => rfl, fun _ => rfl, fun hup => ?_⟩
  simp [isUp, Worker.exit] at hup

/-- **The worker has come up** with tablets recovered from its own files or from
the workers the coordinator named. -/
structure Recovered (σ : Cluster) (ord : ℕ → IterOrder) (id : ℕ) (w : Worker) : Prop where
  /-- It was down. -/
  down : (σ id).isUp = false
  /-- It is up. -/
  isUp : w.isUp = true
  /-- The logs are the same. -/
  log : ∀ i, (w.slots i).log = ((σ id).slots i).log
  /-- The checkpoints are the same. -/
  checkpoint : ∀ i, (w.slots i).checkpoint = ((σ id).slots i).checkpoint
  /-- The tablets are those recovered. -/
  tablet : ∀ i, recoverSlot id (copyFrom ord σ)
    (getCurrentPrimary σ.isAlive (storedTablet numTablets id i)) (storedTablet numTablets id i)
      ((σ id).slots i) = some (w.slots i).tablet

/-- The answers of the coordinator, tablet by tablet. -/
theorem workerLookup_eq (isAlive : ℕ → Bool) (id : ℕ) : workerLookup isAlive id =
    answers fun i => getCurrentPrimary isAlive (storedTablet numTablets id i) :=
  rfl

/-- A worker that has recovered on the files of worker `id`. -/
theorem recovered_up (hid : IsId numTablets id) {ord : ℕ → IterOrder} {w₀ : Worker}
    (hrec : recoverAllTablets id (copyFrom ord σ) (workerLookup σ.isAlive id) w₀ = some w)
    (hlog : ∀ i, (w₀.slots i).log = ((σ id).slots i).log)
    (hck : ∀ i, (w₀.slots i).checkpoint = ((σ id).slots i).checkpoint)
    (hrun : w₀.running = true) (hdown : (σ id).isUp = false) : Recovered σ ord id w.up := by
  rw [workerLookup_eq] at hrec
  obtain ⟨T, hT, rfl⟩ := (recoverAllTablets_eq_some hid _
    (fun i => isHost_getCurrentPrimary _ (isId_storedTablet hid i)) _ _).mp hrec
  refine ⟨hdown, ?_, hlog, hck, fun i => ?_⟩
  · simp [isUp, up, setTablets, hrun]
  · rw [← recoverSlot_congr (hlog i) (hck i)]
    exact hT i

/-- **A command of the admin console** leaves the worker as it was, or down, or up
with recovered tablets. -/
theorem adminConsole_cases (hid : IsId numTablets id) (ord : ℕ → IterOrder)
    (password command : Bytes) :
    Kept σ id ((σ id).adminConsole id (copyFrom ord σ) (workerLookup σ.isAlive id)
        password command).1 ∨
      (command = ascii "RESTART" ∧ Recovered σ ord id ((σ id).adminConsole id (copyFrom ord σ)
        (workerLookup σ.isAlive id) password command).1) := by
  have hself : Kept σ id (σ id) := ⟨fun _ => rfl, fun _ => rfl, fun _ => rfl⟩
  rw [adminConsole]
  rcases hrun : (σ id).running with _ | _
  · exact Or.inl hself
  rw [Bool.not_true, if_neg Bool.false_ne_true]
  split_ifs with _ _ hrestart hadmin
  · exact Or.inl hself
  · refine Or.inl ⟨fun _ => rfl, fun _ => rfl, fun hup => ?_⟩
    simp [isUp, down] at hup
  · exact Or.inl hself
  · have hdown : (σ id).isUp = false := by simp [isUp, hadmin]
    rcases hrec : recoverAllTablets id (copyFrom ord σ) (workerLookup σ.isAlive id) (σ id)
      with _ | w
    · exact Or.inl (kept_exit σ id)
    · exact Or.inr ⟨hrestart, recovered_up hid hrec (fun _ => rfl) (fun _ => rfl) hrun hdown⟩
  · exact Or.inl hself

/-- **A process that is started** comes up with recovered tablets, or is gone
again. -/
theorem main_cases (hid : IsId numTablets id) (ord : ℕ → IterOrder)
    (hrun : (σ id).running = false) :
    Kept σ id ((σ id).main id (copyFrom ord σ) (workerLookup σ.isAlive id)) ∨
      Recovered σ ord id ((σ id).main id (copyFrom ord σ) (workerLookup σ.isAlive id)) := by
  have hdown : (σ id).isUp = false := by simp [isUp, hrun]
  rw [main]
  rcases hrec : recoverAllTablets id (copyFrom ord σ) (workerLookup σ.isAlive id) (σ id).fresh
    with _ | w
  · refine Or.inl ⟨fun _ => rfl, fun _ => rfl, fun hup => ?_⟩
    simp [isUp, Worker.exit] at hup
  · have hrecovered := recovered_up hid hrec (fun _ => rfl) (fun _ => rfl) rfl hdown
    rw [workerLookup_eq] at hrec
    obtain ⟨T, -, rfl⟩ := (recoverAllTablets_eq_some hid _
      (fun i => isHost_getCurrentPrimary _ (isId_storedTablet hid i)) _ _).mp hrec
    exact Or.inr hrecovered

/-- **What a worker that has come up has for a tablet**: what its own files
describe when no other copy is up, and else the first copy that is up. -/
theorem tablet_recovered {ord : ℕ → IterOrder} (h : Recovered σ ord id w) {t : ℕ}
    (ht : IsId numTablets t) (hc : id ∈ candidateIds numTablets t) :
    (firstAlive σ.isAlive t = none ∧
        (slotAt id t (σ id)).recoverFromLocal = some (slotAt id t w).tablet) ∨
      ∃ c, firstAlive σ.isAlive t = some c ∧ c ≠ id ∧
        (slotAt id t w).tablet = (deserializeTablet ∅ (copyFrom ord σ c t)).2 := by
  have hid := isId_candidate ht hc
  have hslot := h.tablet (slotOf id t)
  rw [storedTablet_slotOf ht hc] at hslot
  rcases getCurrentPrimary_cases σ.isAlive ht with ⟨hdead, hnone⟩ | ⟨c, hcid, hhost, hsome⟩
  · rw [hdead, recoverSlot, if_pos rfl] at hslot
    exact Or.inl ⟨hnone, hslot⟩
  · have hne : c ≠ id := by
      rintro rfl
      exact absurd (firstAlive_some hsome).2 (by simp [isAlive, h.down])
    rw [hhost, recoverSlot_address (mem_workerIds.mpr hid) hcid hne] at hslot
    exact Or.inr ⟨c, hsome, hne, (Option.some.inj hslot).symm⟩

/-- A tablet copied is the tablet it is copied from. -/
theorem copyFrom_exact {c t : ℕ} (hc : firstAlive σ.isAlive t = some c) (ht : IsId numTablets t)
    (ord : ℕ → IterOrder) (hfits : (slotAt c t (σ c)).tablet.Fits)
    (hne : (slotAt c t (σ c)).tablet.NoEmptyRow) :
    (deserializeTablet ∅ (copyFrom ord σ c t)).2 = (slotAt c t (σ c)).tablet := by
  obtain ⟨hcand, hup⟩ := firstAlive_some hc
  rw [copyFrom, copied_exact hup (getTabletNumber_slotOf ht hcand) (ord c) hfits hne]
  rfl

end Restart

/-! ### Agreement -/

/-- **The copies agree**: any two workers that are up and hold a tablet have the
same rows, columns and values for it. -/
def Agree (σ : Cluster) : Prop :=
  ∀ t, IsId numTablets t → ∀ p ∈ candidateIds numTablets t, ∀ q ∈ candidateIds numTablets t,
    (σ p).isUp = true → (σ q).isUp = true →
      (slotAt p t (σ p)).tablet = (slotAt q t (σ q)).tablet

/-- What is asked of a write: a worker that has to checkpoint the tablet after it
can open the file. -/
def WriteOk (hash : Bytes → UInt64) (σ : Cluster) (u : Update) (env : ℕ → Env) : Prop :=
  ∀ p, firstAlive σ.isAlive (tabletOf hash u.row) = some p →
    (slotAt p (tabletOf hash u.row) (σ p)).checkpointDue = true → (env p).opens = true

/-- What is asked of a recovery: the tablets copied fit the format. -/
def RecoverOk (σ : Cluster) (id : ℕ) : Prop :=
  ∀ t, id ∈ candidateIds numTablets t → ∀ c, firstAlive σ.isAlive t = some c →
    (slotAt c t (σ c)).tablet.Fits

/-- The condition on a step. -/
def StepOk (hash : Bytes → UInt64) (σ : Cluster) : Event → Prop
  | .write u env => WriteOk hash σ u env
  | .adminConsole id _ _ command =>
    command = ascii "RESTART" → (σ id).isUp = false → RecoverOk σ id
  | .exit _ => True
  | .main id _ => RecoverOk σ id

/-- The workers as they are set up. -/
def start : Cluster := fun _ => Worker.empty

section Agreement

variable {hash : Bytes → UInt64} {σ : Cluster}

/-- The invariant of the workers. -/
structure Consistent (σ : Cluster) : Prop where
  /-- The copies agree. -/
  agree : Agree σ
  /-- No row is without columns. -/
  noEmptyRow : ∀ q, (σ q).NoEmptyRow

theorem consistent_start : Consistent start :=
  ⟨fun _ _ _ _ _ _ _ _ => rfl, fun _ _ => Tablet.noEmptyRow_empty⟩

theorem noEmptyRow_write {env : ℕ → Env} {u : Update} {p : ℕ}
    (hp : p ∈ candidateIds numTablets (tabletOf hash u.row)) (h : ∀ q, (σ q).NoEmptyRow) (q : ℕ) :
    ((σ.write hash env u p).1 q).NoEmptyRow := by
  rw [write_apply hp]
  split_ifs
  · exact noEmptyRow_handle (h q) _ _
  · exact h q

/-- **A write keeps the copies in agreement.** -/
theorem agree_write {env : ℕ → Env} {u : Update} {p : ℕ} (h : Agree σ)
    (hp : firstAlive σ.isAlive (tabletOf hash u.row) = some p) (hw : WriteOk hash σ u env) :
    Agree (σ.write hash env u p).1 := by
  rcases hok : (σ.write hash env u p).2.isOk with _ | _
  · rw [write_refused hp (hw p hp) hok]
    exact h
  obtain ⟨hpc, hpup⟩ := firstAlive_some hp
  intro t ht q hq r hr hqup hrup
  rw [isUp_write hpc] at hqup hrup
  rcases eq_or_ne (tabletOf hash u.row) t with rfl | hne
  · -- both make the same update of the same tablet
    obtain ⟨kvs, hk⟩ : ∃ kvs,
        u.onTablet (slotAt p (tabletOf hash u.row) (σ p)).tablet = .ok kvs := by
      rw [write_status, (slotAt_handle hpc hpup _).2] at hok
      exact (Slot.isOk_update (hw p hp)).mp hok
    have hnew : ∀ s ∈ candidateIds numTablets (tabletOf hash u.row), (σ s).isUp = true →
        (slotAt s (tabletOf hash u.row) ((σ.write hash env u p).1 s)).tablet = kvs := by
      intro s hs hsup
      have hks : u.onTablet (slotAt s (tabletOf hash u.row) (σ s)).tablet = .ok kvs := by
        rw [h _ (isId_tabletOf hash u.row) s hs p hpc hsup hpup]
        exact hk
      rw [slotAt_write hp hok hs hsup]
      exact Slot.tablet_update hks _
    rw [hnew q hq hqup, hnew r hr hrup]
  · rw [slotAt_write_of_ne hpc ht hq hne, slotAt_write_of_ne hpc ht hr hne]
    exact h t ht q hq r hr hqup hrup

/-- A worker that has not come up leaves the workers that are up as they were. -/
theorem Kept.apply {id : ℕ} {w : Worker} (hw : Kept σ id w) {q : ℕ}
    (hup : (Function.update σ id w q).isUp = true) : Function.update σ id w q = σ q := by
  rcases eq_or_ne q id with rfl | hne
  · rw [Function.update_self] at hup ⊢
    exact hw.same hup
  · exact Function.update_of_ne hne _ _

theorem agree_kept {id : ℕ} {w : Worker} (h : Agree σ) (hw : Kept σ id w) :
    Agree (Function.update σ id w) := by
  intro t ht p hp q hq hpup hqup
  have hpe := hw.apply hpup
  have hqe := hw.apply hqup
  rw [hpe] at hpup ⊢
  rw [hqe] at hqup ⊢
  exact h t ht p hp q hq hpup hqup

/-- **A recovery keeps the copies in agreement.** -/
theorem agree_recovered {ord : ℕ → IterOrder} {id : ℕ} {w : Worker} (h : Consistent σ)
    (hw : Recovered σ ord id w) (hok : RecoverOk σ id) : Agree (Function.update σ id w) := by
  -- the recovered copy agrees with every other copy that is up
  have hcopy : ∀ t, IsId numTablets t → id ∈ candidateIds numTablets t →
      ∀ q ∈ candidateIds numTablets t, (σ q).isUp = true →
        (slotAt id t w).tablet = (slotAt q t (σ q)).tablet := by
    intro t ht hid q hq hqup
    rcases tablet_recovered hw ht hid with ⟨hnone, -⟩ | ⟨c, hc, -, hcopied⟩
    · have hdead : (σ q).isUp = false := firstAlive_none hnone hq
      exact absurd hqup (by simp [hdead])
    · obtain ⟨hcc, hcup⟩ := firstAlive_some hc
      rw [hcopied, copyFrom_exact hc ht ord (hok t hid c hc) (h.noEmptyRow c _)]
      exact h.agree t ht c hcc q hq hcup hqup
  intro t ht p hp q hq hpup hqup
  rcases eq_or_ne p id with hpid | hpne <;> rcases eq_or_ne q id with hqid | hqne
  · rw [hpid, hqid]
  · rw [Function.update_of_ne hqne] at hqup ⊢
    rw [hpid, Function.update_self]
    exact hcopy t ht (hpid ▸ hp) q hq hqup
  · rw [Function.update_of_ne hpne] at hpup ⊢
    rw [hqid, Function.update_self]
    exact (hcopy t ht (hqid ▸ hq) p hp hpup).symm
  · rw [Function.update_of_ne hpne] at hpup ⊢
    rw [Function.update_of_ne hqne] at hqup ⊢
    exact h.agree t ht p hp q hq hpup hqup

theorem consistent_update {id : ℕ} {w : Worker} (h : Consistent σ) (hw : w.NoEmptyRow)
    (hagree : Agree (Function.update σ id w)) : Consistent (Function.update σ id w) := by
  refine ⟨hagree, fun q => ?_⟩
  rcases eq_or_ne q id with rfl | hne
  · rw [Function.update_self]
    exact hw
  · rw [Function.update_of_ne hne]
    exact h.noEmptyRow q

/-- A change of a worker that is none of the six is not seen. -/
theorem agree_update_of_not_isId {id : ℕ} {w : Worker} (h : Agree σ) (hid : ¬IsId numTablets id) :
    Agree (Function.update σ id w) := by
  have hother : ∀ {t q : ℕ}, IsId numTablets t → q ∈ candidateIds numTablets t →
      Function.update σ id w q = σ q := by
    intro t q ht hq
    refine Function.update_of_ne ?_ _ _
    rintro rfl
    exact hid (isId_candidate ht hq)
  intro t ht p hp q hq hpup hqup
  rw [hother ht hp] at hpup ⊢
  rw [hother ht hq] at hqup ⊢
  exact h t ht p hp q hq hpup hqup

/-- **Every step keeps the workers consistent.** -/
theorem consistent_step {e : Event} (h : Consistent σ) (he : StepOk hash σ e) :
    Consistent (step hash σ e) := by
  cases e with
  | write u env =>
    rw [step, lookup_eq]
    rcases hp : firstAlive σ.isAlive (tabletOf hash u.row) with _ | p
    · exact h
    · exact ⟨agree_write h.agree hp he, noEmptyRow_write (firstAlive_some hp).1 h.noEmptyRow⟩
  | adminConsole id ord password command =>
    rw [step]
    refine consistent_update h (noEmptyRow_adminConsole (h.noEmptyRow id) _ _ _ _) ?_
    by_cases hid : IsId numTablets id
    · rcases adminConsole_cases hid ord password command with hw | ⟨hrestart, hw⟩
      · exact agree_kept h.agree hw
      · exact agree_recovered h hw (he hrestart hw.down)
    · exact agree_update_of_not_isId h.agree hid
  | exit id => exact consistent_update h (h.noEmptyRow id) (agree_kept h.agree (kept_exit σ id))
  | main id ord =>
    rw [step]
    split_ifs with hrun
    · exact h
    refine consistent_update h (noEmptyRow_main _ _) ?_
    by_cases hid : IsId numTablets id
    · rcases main_cases hid ord (by simpa using hrun) with hw | hw
      · exact agree_kept h.agree hw
      · exact agree_recovered h hw he
    · exact agree_update_of_not_isId h.agree hid

/-- **Replica agreement**, in every state the workers reach. -/
theorem agree_of_reaches (h : Runs.Reaches (step hash) (StepOk hash) start σ) : Agree σ :=
  (h.invariant consistent_start fun _ _ hs he => consistent_step hs he).agree

end Agreement

/-- Every worker lists its maps in some order and can open its files. -/
noncomputable def anyEnv : ℕ → Env := fun _ => ⟨default, true⟩

/-- A write, a shutdown and another write, for instance. -/
theorem agree_write_shutdown_write :
    Agree ([Event.write (.put [1] [2] [3]) anyEnv,
      Event.adminConsole 1 (fun _ => default) (ascii "admin") (ascii "SHUTDOWN"),
      Event.write (.delete [1] [2]) anyEnv].foldl (step fun _ => 0) start) := by
  refine @agree_of_reaches (fun _ => 0) _ (Runs.Reaches.foldl _ (fun σ e he => ?_) start)
  simp only [List.mem_cons, List.not_mem_nil, or_false] at he
  rcases he with rfl | rfl | rfl
  · exact fun _ _ _ => rfl
  · exact fun h => absurd h (by decide)
  · exact fun _ _ _ => rfl

/-! ### A copy that cannot be read back -/

/-- Recovery succeeds when every tablet has another copy that is up, or files that
describe one. -/
theorem exists_recoverAllTablets {σ : Cluster} {id : ℕ} (hid : IsId numTablets id)
    (ord : ℕ → IterOrder) (hdown : (σ id).isUp = false) {w : Worker}
    (h : ∀ i, firstAlive σ.isAlive (storedTablet numTablets id i) = none →
      ∃ kvs, (w.slots i).recoverFromLocal = some kvs) :
    ∃ w', recoverAllTablets id (copyFrom ord σ) (workerLookup σ.isAlive id) w = some w' := by
  rw [workerLookup_eq]
  have hslot : ∀ i, ∃ kvs, recoverSlot id (copyFrom ord σ)
      (getCurrentPrimary σ.isAlive (storedTablet numTablets id i)) (storedTablet numTablets id i)
        (w.slots i) = some kvs := by
    intro i
    rcases getCurrentPrimary_cases σ.isAlive (isId_storedTablet hid i) with
      ⟨hdead, hnone⟩ | ⟨c, hcid, hhost, hsome⟩
    · rw [hdead, recoverSlot, if_pos rfl]
      exact h i hnone
    · have hne : c ≠ id := by
        rintro rfl
        exact absurd (firstAlive_some hsome).2 (by simp [isAlive, hdown])
      rw [hhost]
      exact ⟨_, recoverSlot_address (mem_workerIds.mpr hid) hcid hne _ _ _⟩
  choose T hT using hslot
  exact ⟨_, (recoverAllTablets_eq_some hid _
    (fun i => isHost_getCurrentPrimary _ (isId_storedTablet hid i)) _ _).mpr ⟨T, hT, rfl⟩⟩

/-- The state after clients have written `n` columns into one row. -/
noncomputable def wideCluster (n : ℕ) : Cluster :=
  ((List.range n).map fun k => Event.write (.put [] (columnKey k) []) anyEnv).foldl
    (step fun _ => 0) start

theorem wideCluster_succ (n : ℕ) : wideCluster (n + 1) =
    step (fun _ => 0) (wideCluster n) (.write (.put [] (columnKey n) []) anyEnv) := by
  simp [wideCluster, List.range_succ]

/-- All workers are up then, and the holders of the row have it. -/
theorem wideCluster_spec (n : ℕ) : (∀ q, (wideCluster n q).isUp = true) ∧
    ∀ q ∈ candidateIds numTablets 1, (slotAt q 1 (wideCluster n q)).tablet = wideTablet n := by
  induction n with
  | zero => exact ⟨fun _ => rfl, fun _ _ => rfl⟩
  | succ n ih =>
    obtain ⟨hup, htab⟩ := ih
    have hp : firstAlive (isAlive (wideCluster n))
        (tabletOf (fun _ => 0) (Update.put [] (columnKey n) []).row) = some 1 :=
      firstAlive_self (hup 1)
    have hstep : wideCluster (n + 1) =
        ((wideCluster n).write (fun _ => 0) anyEnv (.put [] (columnKey n) []) 1).1 := by
      rw [wideCluster_succ, step, lookup_eq, hp]
    have hput : ∀ q ∈ candidateIds numTablets 1, (Update.put [] (columnKey n) []).onTablet
        (slotAt q 1 (wideCluster n q)).tablet = .ok (wideTablet (n + 1)) := by
      intro q hq
      rw [htab q hq]
      rfl
    have h1 : 1 ∈ candidateIds numTablets 1 := List.mem_cons_self
    have hok : ((wideCluster n).write (fun _ => 0) anyEnv (.put [] (columnKey n) []) 1).2.isOk =
        true := by
      rw [write_status, (slotAt_handle h1 (hup 1) _).2]
      exact (Slot.isOk_update fun _ => rfl).mpr ⟨_, hput 1 h1⟩
    rw [hstep]
    refine ⟨fun q => (isUp_write h1 q).trans (hup q), fun q hq => ?_⟩
    have hslot := slotAt_write hp hok hq (hup q)
    exact (congrArg Slot.tablet hslot).trans (Slot.tablet_update (hput q hq) _)

/-- Worker 1 is shut down and restarted after `n` columns have been written. -/
noncomputable def wideRestart (n : ℕ) : Cluster :=
  [Event.adminConsole 1 (fun _ => default) (ascii "admin") (ascii "SHUTDOWN"),
    Event.adminConsole 1 (fun _ => default) (ascii "admin") (ascii "RESTART")].foldl
      (step fun _ => 0) (wideCluster n)

/-- The restarted worker is up, with the tablet it was sent by worker 2. -/
theorem wideRestart_spec (n : ℕ) : (∀ q, (wideRestart n q).isUp = true) ∧
    (slotAt 1 1 (wideRestart n 1)).tablet =
      (deserializeTablet ∅ (serializeTablet default (wideTablet n))).2 ∧
    (slotAt 2 1 (wideRestart n 2)).tablet = wideTablet n := by
  obtain ⟨hup, htab⟩ := wideCluster_spec n
  have hrun : (wideCluster n 1).running = true := (Bool.and_eq_true_iff.mp (hup 1)).1
  -- the workers after the shutdown
  obtain ⟨σ, hσ⟩ : ∃ σ : Cluster, σ = Function.update (wideCluster n) 1 (wideCluster n 1).down :=
    ⟨_, rfl⟩
  have h1 : σ 1 = (wideCluster n 1).down := by
    rw [hσ, Function.update_self]
  have hother : ∀ q, q ≠ 1 → σ q = wideCluster n q := by
    intro q hq
    rw [hσ, Function.update_of_ne hq]
  have hdown : (σ 1).isUp = false := by simp [h1, down, isUp]
  have halive : ∀ q, q ≠ 1 → σ.isAlive q = true := by
    intro q hq
    rw [isAlive, hother q hq]
    exact hup q
  have htwo : firstAlive σ.isAlive 1 = some 2 := by
    rw [firstAlive, candidateIds, List.find?_cons_of_neg (by simp [isAlive, hdown]),
      List.find?_cons_of_pos (halive _ (by decide))]
    rfl
  -- each tablet of worker 1 has another holder, and that is up
  have hholder : ∀ i, ∃ c ∈ candidateIds numTablets (storedTablet numTablets 1 i), c ≠ 1 := by
    decide
  obtain ⟨w, hrec⟩ : ∃ w, recoverAllTablets 1 (copyFrom (fun _ => default) σ)
      (workerLookup σ.isAlive 1) (σ 1) = some w := by
    refine exists_recoverAllTablets (by decide) _ hdown fun i hnone => ?_
    obtain ⟨c, hc, hne⟩ := hholder i
    exact absurd (halive c hne) (by simp [firstAlive_none hnone hc])
  have hrestart : wideRestart n = Function.update σ 1 w.up := by
    rw [wideRestart, List.foldl_cons, List.foldl_cons, List.foldl_nil, step_shutdown hrun, ← hσ,
      step_restart h1 hrun hrec]
  have hrecovered : Recovered σ (fun _ => default) 1 w.up :=
    recovered_up (by decide) hrec (fun _ => rfl) (fun _ => rfl) (h1 ▸ hrun) hdown
  rw [hrestart]
  refine ⟨fun q => ?_, ?_, ?_⟩
  · rcases eq_or_ne q 1 with rfl | hq
    · rw [Function.update_self]
      exact hrecovered.isUp
    · rw [Function.update_of_ne hq, hother q hq]
      exact hup q
  · have hone : IsId numTablets 1 := by decide
    have htwoc : 2 ∈ candidateIds numTablets 1 := by decide
    rw [Function.update_self]
    rcases tablet_recovered hrecovered hone List.mem_cons_self with
      ⟨hnone, -⟩ | ⟨c, hc, -, hcopied⟩
    · exact absurd (hnone.symm.trans htwo) (by simp)
    · obtain rfl : c = 2 := Option.some.inj (hc.symm.trans htwo)
      have htab2 := htab 2 (by decide)
      rw [← hother 2 (by decide)] at htab2
      rw [hcopied, copyFrom, copyTabletClient_of_isUp (halive 2 (by decide))
        (getTabletNumber_slotOf hone htwoc), ← slotAt, htab2]
  · rw [Function.update_of_ne (by decide), hother 2 (by decide)]
    exact htab 2 (by decide)

/-- **A row of `2 ^ 32` columns is lost in a copy**: the restarted worker is up with
an empty tablet, and worker 2 has the row. -/
theorem wide_restart_disagrees : ¬Agree (wideRestart (2 ^ 32)) := by
  intro hagree
  obtain ⟨hup, hone, htwo⟩ := wideRestart_spec (2 ^ 32)
  have heq := hagree 1 (by decide) 1 (by decide) 2 (by decide) (hup 1) (hup 2)
  rw [hone, htwo, deserializeTablet_wideTablet default (by omega) (by omega) (by omega)] at heq
  exact wideTablet_ne_empty (by omega) heq.symm

end Cluster

end PennCloud
