import PennCloud.Backend.Durability

/-!
# A crash in the middle of an update

The files of a tablet change in several steps (`PennCloud.Slot.effects`), and a
process can end between any two of them. `PennCloud.Slot.crash` is the slot as
such a crash leaves it, after the first `k` effects of an update;
`PennCloud.Slot.CrashSafe` asks that the files then rebuild the tablet from before
the update or the one after it.

An update that is only logged is always safe. One that is checkpointed has two
dangerous moments, both because checkpoint and log are replaced one after the
other and in place:

* the checkpoint file has been truncated and not written yet. The log is replayed
  over nothing, and what only the old checkpoint knew is gone;
* the checkpoint has been written and the log not cleared yet. The log is
  replayed over the tablet it led to, and a `CPUT` finds its own outcome there.

What these replays make of a log is decided by the first command it has on each
cell (`KeyValue.exec_empty_of_blind`, `KeyValue.exec_twice_iff`), which gives the
exact condition `PennCloud.Slot.CrashOk`.

`PennCloud.Worker.LifeEvent` is what can happen to a worker, crashes included, and
`PennCloud.Worker.crash_consistent_iff` is the statement for a worker with any such
history behind it: requests, recoveries from its own files or from copies that the
files describe, crashes that were survived, and restarts after them.
-/

namespace PennCloud

open Wire KeyValue

/-! ### The commands of a log -/

/-- The update a record is the record of. -/
def CommandLog.asUpdate (cl : CommandLog) : Option Update :=
  if cl.command = ascii "PUT" then some (.put cl.row cl.column cl.value1)
  else if cl.command = ascii "CPUT" then some (.cput cl.row cl.column cl.value1 cl.value2)
  else if cl.command = ascii "DELETE" then some (.delete cl.row cl.column)
  else none

theorem CommandLog.asUpdate_record (u : Update) : u.record.asUpdate = some u := by
  have hcput : ascii "CPUT" ≠ ascii "PUT" := by decide
  have hdelete : ascii "DELETE" ≠ ascii "PUT" ∧ ascii "DELETE" ≠ ascii "CPUT" := by decide
  cases u with
  | put row column value => simp [asUpdate, Update.record]
  | cput row column cur new => simp [asUpdate, Update.record, hcput]
  | delete row column => simp [asUpdate, Update.record, hdelete]

/-- Between tablets without empty rows, replaying updates is executing their
commands on the cells. -/
theorem replayLogs_eq_some_iff {us : List Update} {base t : Tablet} (hbase : base.NoEmptyRow)
    (ht : t.NoEmptyRow) : replayLogs (us.map Update.record) base = some t ↔
      exec (us.map Update.cmd) base.cells = some t.cells := by
  rw [← cells_replayLogs]
  constructor
  · intro h
    rw [h]
    rfl
  · intro h
    obtain ⟨t', ht', hcells⟩ := Option.map_eq_some_iff.mp h
    rw [ht', Tablet.ext_cells (noEmptyRow_replayLogs hbase ht') ht hcells]

namespace Slot

/-- The commands in the log of a slot and the one of an update about to be
logged. -/
def commands (s : Slot) (u : Update) : List (Cmd (Bytes × Bytes) Bytes) :=
  ((Logger.getLogs s.log).filterMap CommandLog.asUpdate ++ [u]).map Update.cmd

variable {s : Slot} {u : Update}

/-- A log written by the handlers is a list of records of updates. -/
theorem exists_updates (h : s.Durable Worker.IsRecord) : ∃ us : List Update,
    (∀ v ∈ us, v.Short) ∧ s.log = Logger.logs (us.map Update.record) ∧
      ∀ v, s.commands v = (us ++ [v]).map Update.cmd := by
  obtain ⟨recs, hrecs, hlog⟩ := h.logged
  have hus : ∃ us : List Update, (∀ v ∈ us, v.Short) ∧ recs = us.map Update.record := by
    clear hlog
    induction recs with
    | nil => exact ⟨[], by simp, rfl⟩
    | cons cl recs ih =>
      obtain ⟨v, hv, rfl⟩ := hrecs cl List.mem_cons_self
      obtain ⟨us, hus, rfl⟩ := ih fun cl' hcl' => hrecs cl' (List.mem_cons_of_mem _ hcl')
      refine ⟨v :: us, ?_, rfl⟩
      rintro v' (_ | ⟨_, hv'⟩)
      · exact hv
      · exact hus v' hv'
  obtain ⟨us, hus, rfl⟩ := hus
  refine ⟨us, hus, hlog, fun v => ?_⟩
  have hshort : ∀ cl ∈ us.map Update.record, Logger.Short cl := fun cl hcl => (hrecs cl hcl).short
  have hmap : (us.map Update.record).filterMap CommandLog.asUpdate = us := by
    rw [List.filterMap_map]
    simp [CommandLog.asUpdate_record]
  rw [commands, hlog, Logger.getLogs_logs hshort, hmap]

/-! ### Crash points -/

/-- The slot after a crash that comes when the first `k` effects of an update have
been performed. Every effect is whole: the record is in the log or not, the bytes of the
checkpoint are in its file or not. What a record that is cut does to a log is said in
`PennCloud.Logger.getLogs_torn_iff`. -/
def crash (s : Slot) (env : Env) (u : Update) (k : ℕ) : Slot :=
  match u.onTablet s.tablet with
  | .error _ => s
  | .ok kvs => ((s.effects env u kvs).take k).foldl perform s

/-- **A crash is survived**: the files rebuild the tablet from before the update,
or the tablet after it. -/
def CrashSafe (s : Slot) (env : Env) (u : Update) (k : ℕ) : Prop :=
  ∃ t, (s.crash env u k).recoverFromLocal = some t ∧
    (t = s.tablet ∨ t = (s.update env u).1.tablet)

/-- Every cell of the old checkpoint is first written by a `PUT` or `DELETE` of
the log, so that the log alone rebuilds the tablet. -/
def LogSuffices (s : Slot) (u : Update) : Prop :=
  ∀ base, s.checkpointTablet = some base → ∀ x, base.cells x ≠ none →
    ∃ c, first x (s.commands u) = some c ∧ c.Blind

/-- Every cell the log first touches with a `CPUT` ends with the value that `CPUT`
expects, so that the log can be replayed over the tablet. -/
def LogRepeats (s : Slot) (u : Update) : Prop :=
  ∀ kvs, u.onTablet s.tablet = .ok kvs → ∀ x old new,
    first x (s.commands u) = some (.cput x old new) → kvs.cells x = some old

/-- **When a crash is survived.** Only the update after which a checkpoint is taken
has dangerous moments: the checkpoint file truncated and not yet written, and
the checkpoint written and the log not yet cleared. -/
def CrashOk (s : Slot) (env : Env) (u : Update) (k : ℕ) : Prop :=
  (∃ kvs, u.onTablet s.tablet = .ok kvs) → s.checkpointDue = true → env.opens = true →
    (k = 4 → s.LogSuffices u) ∧ (k = 5 → s.LogRepeats u)

/-- **The files a crash leaves behind**, for an update that is accepted: those from
before, those with one more record, and, when a checkpoint is taken, those of
the two moments in between and those of the checkpoint alone. -/
theorem crash_files {kvs : Tablet} (hk : u.onTablet s.tablet = .ok kvs) (env : Env) (k : ℕ) :
    ((s.crash env u k).log = s.log ∧ (s.crash env u k).checkpoint = s.checkpoint ∧ k ≤ 1) ∨
    ((s.crash env u k).log = Logger.logCommand s.log u.record ∧
      (s.crash env u k).checkpoint = s.checkpoint ∧
      (k ≠ 4 ∧ k ≠ 5 ∨ ¬(s.checkpointDue = true ∧ env.opens = true))) ∨
    ((s.checkpointDue = true ∧ env.opens = true) ∧
      (((s.crash env u k).log = Logger.logCommand s.log u.record ∧
          (s.crash env u k).checkpoint = some [] ∧ k = 4) ∨
        ((s.crash env u k).log = Logger.logCommand s.log u.record ∧
          (s.crash env u k).checkpoint = some (serializeTablet env.order kvs) ∧ k = 5) ∨
        ((s.crash env u k).log = [] ∧
          (s.crash env u k).checkpoint = some (serializeTablet env.order kvs) ∧ 6 ≤ k))) := by
  -- the effects are a list of three or of seven, and the crash comes after `k` of them
  rcases hd : s.checkpointDue && env.opens with _ | _
  · have hno : ¬(s.checkpointDue = true ∧ env.opens = true) := by simpa using hd
    have heff : s.effects env u kvs = [.memory kvs, .logCommand u.record, .count] := by
      simp [effects, hd]
    simp only [crash, hk, heff]
    rcases k with _ | _ | _ | k
    · exact Or.inl ⟨rfl, rfl, by omega⟩
    · exact Or.inl ⟨rfl, rfl, by omega⟩
    · exact Or.inr (Or.inl ⟨rfl, rfl, Or.inr hno⟩)
    · refine Or.inr (Or.inl ⟨?_, ?_, Or.inr hno⟩) <;> simp [perform]
  · have hyes : s.checkpointDue = true ∧ env.opens = true := by simpa using hd
    have heff : s.effects env u kvs = [.memory kvs, .logCommand u.record, .count,
        .truncateCheckpoint, .writeCheckpoint (serializeTablet env.order kvs), .clearLog,
        .resetCount] := by
      simp [effects, hd]
    simp only [crash, hk, heff]
    rcases k with _ | _ | _ | _ | _ | _ | _ | k
    · exact Or.inl ⟨rfl, rfl, by omega⟩
    · exact Or.inl ⟨rfl, rfl, by omega⟩
    · exact Or.inr (Or.inl ⟨rfl, rfl, Or.inl (by omega)⟩)
    · exact Or.inr (Or.inl ⟨rfl, rfl, Or.inl (by omega)⟩)
    · exact Or.inr (Or.inr ⟨hyes, Or.inl ⟨rfl, rfl, by omega⟩⟩)
    · exact Or.inr (Or.inr ⟨hyes, Or.inr (Or.inl ⟨rfl, rfl, by omega⟩)⟩)
    · exact Or.inr (Or.inr ⟨hyes, Or.inr (Or.inr ⟨rfl, rfl, by omega⟩)⟩)
    · refine Or.inr (Or.inr ⟨hyes, Or.inr (Or.inr ⟨?_, ?_, by omega⟩)⟩) <;>
        simp [perform, Logger.clearLog]

section Moments

variable {us : List Update} {base kvs : Tablet}

/-- What the log and the update lead to from the old checkpoint. -/
theorem exec_commands (h : s.Durable Worker.IsRecord) (hk : u.onTablet s.tablet = .ok kvs)
    (hbase : s.checkpointTablet = some base) :
    exec (s.commands u) base.cells = some kvs.cells := by
  obtain ⟨us, hus, hlog, hcmds⟩ := exists_updates h
  have hrec := h.recovers
  rw [recoverFromLocal_logs (by simpa [Update.Short] using hus) hlog, hbase, Option.bind_some,
    replayLogs_eq_some_iff (noEmptyRow_checkpointTablet hbase)
      h.noEmptyRow] at hrec
  rw [hcmds u, List.map_append, exec_append, hrec, Option.bind_some, List.map_singleton, exec_cons,
    Update.exec_cells hk]
  rfl

/-- Recovery when the log and the update are all there is in the log file. -/
theorem recoverFromLocal_logged (h : s.Durable Worker.IsRecord) (hu : u.Short) {c : Slot}
    (hlog : c.log = Logger.logCommand s.log u.record) {b : Tablet}
    (hb : c.checkpointTablet = some b) {t : Tablet} (ht : t.NoEmptyRow) :
    c.recoverFromLocal = some t ↔ exec (s.commands u) b.cells = some t.cells := by
  obtain ⟨us, hus, hslog, hcmds⟩ := exists_updates h
  have hshort : ∀ cl ∈ (us ++ [u]).map Update.record, Logger.Short cl := by
    simp only [List.map_append, List.mem_append, List.mem_map, List.mem_singleton]
    rintro cl (⟨v, hv, rfl⟩ | ⟨v, rfl, rfl⟩)
    · exact hus v hv
    · exact hu
  have hfile : c.log = Logger.logs ((us ++ [u]).map Update.record) := by
    rw [hlog, hslog, Logger.logCommand_logs, List.map_append, List.map_singleton]
  rw [recoverFromLocal_logs hshort hfile, hb, Option.bind_some,
    replayLogs_eq_some_iff (noEmptyRow_checkpointTablet hb) ht, hcmds u]

/-- **The checkpoint truncated**: the log alone has to rebuild the tablet. -/
theorem recovers_truncated_iff (h : s.Durable Worker.IsRecord) (hu : u.Short)
    (hk : u.onTablet s.tablet = .ok kvs) {c : Slot}
    (hlog : c.log = Logger.logCommand s.log u.record) (hck : c.checkpoint = some []) :
    (∃ t, c.recoverFromLocal = some t ∧ (t = s.tablet ∨ t = kvs)) ↔ s.LogSuffices u := by
  have hempty : c.checkpointTablet = some ∅ := by
    rw [checkpointTablet, retrieveCheckpoint, hck]
    rfl
  have hnes : s.tablet.NoEmptyRow := h.noEmptyRow
  have hnek : kvs.NoEmptyRow := Update.noEmptyRow_onTablet hnes hk
  obtain ⟨base, hbase⟩ := h.exists_checkpointTablet
  have hexec := exec_commands h hk hbase
  constructor
  · rintro ⟨t, ht, hor⟩ base' hbase'
    obtain rfl : base = base' := Option.some.inj (hbase.symm.trans hbase')
    -- neither the tablet before nor the one after differs from the base where the log is silent
    have hagree : ∀ x, first x (s.commands u) = none → t.cells x = base.cells x := by
      intro x hx
      rcases hor with rfl | rfl
      · rw [← exec_untouched hexec hx]
        have hmem : u.cmd ∈ s.commands u := by simp [commands]
        exact (Cmd.exec_of_ne (Update.exec_cells hk) (key_ne_of_first_none hx hmem).symm).symm
      · exact exec_untouched hexec hx
    have htne : t.NoEmptyRow := noEmptyRow_recoverFromLocal ht
    have hreplay := (recoverFromLocal_logged h hu hlog hempty htne).mp ht
    exact fun x hx => blind_of_exec_empty hreplay hagree hx
  · intro hsuff
    refine ⟨kvs, (recoverFromLocal_logged h hu hlog hempty hnek).mpr ?_, Or.inr rfl⟩
    exact exec_empty_of_blind hexec (hsuff base hbase)

/-- **The log not cleared**: it has to be replayed over the tablet it led to. -/
theorem recovers_uncleared_iff (h : s.Durable Worker.IsRecord) (hu : u.Short)
    (hk : u.onTablet s.tablet = .ok kvs) {c : Slot}
    (hlog : c.log = Logger.logCommand s.log u.record) (hck : c.checkpointTablet = some kvs) :
    (∃ t, c.recoverFromLocal = some t ∧ (t = s.tablet ∨ t = kvs)) ↔ s.LogRepeats u := by
  have hnek : kvs.NoEmptyRow := noEmptyRow_checkpointTablet hck
  -- the log led from the old checkpoint to `kvs`, and is now replayed from there
  obtain ⟨base, hbase⟩ := h.exists_checkpointTablet
  have hexec := exec_commands h hk hbase
  constructor
  · rintro ⟨t, ht, -⟩ kvs' hk' x old new hf
    obtain rfl : kvs = kvs' := Except.ok.inj (hk.symm.trans hk')
    have htne : t.NoEmptyRow := noEmptyRow_recoverFromLocal ht
    have hreplay := (recoverFromLocal_logged h hu hlog hck htne).mp ht
    exact (exec_twice_iff hexec).mp (exec_twice_of_isSome hexec hreplay) x old new hf
  · intro hrep
    refine ⟨kvs, (recoverFromLocal_logged h hu hlog hck hnek).mpr ?_, Or.inr rfl⟩
    exact (exec_twice_iff hexec).mpr (hrep kvs hk)

end Moments

/-- **When a crash in an update is survived**, for a slot whose files describe its
tablet. -/
theorem crashSafe_iff (h : s.Durable Worker.IsRecord) (hu : u.Short) {env : Env}
    (hfits : s.checkpointDue = true → env.opens = true →
      ∀ kvs, u.onTablet s.tablet = .ok kvs → kvs.Fits) (k : ℕ) :
    s.CrashSafe env u k ↔ s.CrashOk env u k := by
  rcases hk : u.onTablet s.tablet with st | kvs
  · -- a refused update has no effects
    have hcrash : s.crash env u k = s := by simp [crash, hk]
    have hsafe : s.CrashSafe env u k := ⟨s.tablet, by rw [hcrash]; exact h.recovers, Or.inl rfl⟩
    exact iff_of_true hsafe fun ⟨kvs, hkvs⟩ => absurd (hk.symm.trans hkvs) (by simp)
  rw [CrashSafe, tablet_update hk]
  -- the files decide: only in the two moments of a checkpoint is anything at stake
  rcases crash_files hk env k with ⟨hlog, hck, hle⟩ | ⟨hlog, hck, hno⟩ | ⟨hdo, hmoment⟩
  · refine iff_of_true ⟨s.tablet, ?_, Or.inl rfl⟩ fun _ _ _ => ⟨by omega, by omega⟩
    rw [recoverFromLocal_congr hlog hck]
    exact h.recovers
  · refine iff_of_true ⟨kvs, ?_, Or.inr rfl⟩ fun _ hd ho => ?_
    · obtain ⟨base, hbase⟩ := h.exists_checkpointTablet
      have hbase' : (s.crash env u k).checkpointTablet = some base := by
        rw [checkpointTablet, retrieveCheckpoint, hck]
        exact hbase
      refine (recoverFromLocal_logged h hu hlog hbase' ?_).mpr (exec_commands h hk hbase)
      exact Update.noEmptyRow_onTablet h.noEmptyRow hk
    · rcases hno with ⟨h4, h5⟩ | hno
      · exact ⟨fun hc => absurd hc h4, fun hc => absurd hc h5⟩
      · exact absurd ⟨hd, ho⟩ hno
  · have hne : kvs.NoEmptyRow :=
      Update.noEmptyRow_onTablet h.noEmptyRow hk
    rcases hmoment with ⟨hlog, hck, rfl⟩ | ⟨hlog, hck, rfl⟩ | ⟨hlog, hck, hle⟩
    · rw [recovers_truncated_iff h hu hk hlog hck]
      exact ⟨fun hs _ _ _ => ⟨fun _ => hs, by omega⟩, fun hok => (hok ⟨kvs, hk⟩ hdo.1 hdo.2).1 rfl⟩
    · rw [recovers_uncleared_iff h hu hk hlog
        (checkpointTablet_serialize env.order (hfits hdo.1 hdo.2 kvs hk) hne hck)]
      exact ⟨fun hs _ _ _ => ⟨by omega, fun _ => hs⟩, fun hok => (hok ⟨kvs, hk⟩ hdo.1 hdo.2).2 rfl⟩
    · refine iff_of_true ⟨kvs, ?_, Or.inr rfl⟩ fun _ _ _ => ⟨by omega, by omega⟩
      have hnone : ∀ cl ∈ ([] : List CommandLog), Logger.Short cl := by simp
      rw [recoverFromLocal_logs hnone hlog,
        checkpointTablet_serialize env.order (hfits hdo.1 hdo.2 kvs hk) hne hck]
      rfl

/-- A crash leaves complete records, with or without the one of the update. -/
theorem logged_crash (h : ∃ recs, (∀ cl ∈ recs, Worker.IsRecord cl) ∧ s.log = Logger.logs recs)
    (hu : u.Short) (env : Env) (k : ℕ) :
    ∃ recs, (∀ cl ∈ recs, Worker.IsRecord cl) ∧ (s.crash env u k).log = Logger.logs recs := by
  obtain ⟨recs, hrecs, hlog⟩ := h
  have hmore : ∃ recs, (∀ cl ∈ recs, Worker.IsRecord cl) ∧
      Logger.logCommand s.log u.record = Logger.logs recs := by
    refine ⟨recs ++ [u.record], List.forall_mem_append.mpr ⟨hrecs, ?_⟩, ?_⟩
    · exact List.forall_mem_singleton.mpr ⟨u, hu, rfl⟩
    · rw [hlog, Logger.logCommand_logs]
  rcases hk : u.onTablet s.tablet with st | kvs
  · have hcrash : s.crash env u k = s := by simp [crash, hk]
    rw [hcrash]
    exact ⟨recs, hrecs, hlog⟩
  · rcases crash_files hk env k with ⟨hsame, -, -⟩ | ⟨hrecord, -, -⟩ | ⟨-, hmoment⟩
    · exact ⟨recs, hrecs, hsame.trans hlog⟩
    · exact hrecord ▸ hmore
    · rcases hmoment with ⟨hrecord, -, -⟩ | ⟨hrecord, -, -⟩ | ⟨hnil, -, -⟩
      · exact hrecord ▸ hmore
      · exact hrecord ▸ hmore
      · exact ⟨[], by simp, hnil⟩

/-- **A crash that is survived** leaves files that describe a tablet. -/
theorem durable_crash (h : s.Durable Worker.IsRecord) (hs : s.tablet.Short) (hu : u.Short)
    {env : Env} (hcounts : s.checkpointDue = true → env.opens = true →
      ∀ kvs, u.onTablet s.tablet = .ok kvs → kvs.Counts) {k : ℕ} (hok : s.CrashOk env u k) :
    ∃ t, Durable Worker.IsRecord { s.crash env u k with tablet := t } ∧ t.Short := by
  have hfits : s.checkpointDue = true → env.opens = true →
      ∀ kvs, u.onTablet s.tablet = .ok kvs → kvs.Fits := fun hdue ho kvs hk =>
    Tablet.fits_of_short (Update.noEmptyRow_onTablet h.noEmptyRow hk) (hcounts hdue ho kvs hk)
      (Update.short_onTablet hu hs hk)
  obtain ⟨t, ht, hor⟩ := (crashSafe_iff h hu hfits k).mpr hok
  refine ⟨t, ⟨logged_crash h.logged hu env k, ht⟩, ?_⟩
  rcases hor with rfl | rfl
  · exact hs
  · exact (h.update_short (fun _ => Worker.IsRecord.short) hs ⟨u, hu, rfl⟩ hcounts).2

end Slot

/-! ### A worker that crashes -/

namespace Worker

/-- The worker after a crash that comes when the first `k` effects of an update
have been performed. -/
def crash (hash : Bytes → UInt64) (id : ℕ) (env : Env) (u : Update) (k : ℕ) (w : Worker) :
    Worker :=
  if w.isUp then
    match getTabletNumberOnThisWorker numTablets id (tabletOf hash u.row) with
    | none => w.exit
    | some i => (w.setSlot i ((w.slots i).crash env u k)).exit
  else w.exit

/-- What can happen to a worker, a crash in the middle of an update included. -/
inductive LifeEvent where
  /-- An event the process lives through. -/
  | event (e : Event)
  /-- The process ends when the first `k` effects of an update have been performed. -/
  | crash (env : Env) (u : Update) (k : ℕ)

/-- One event in the life of worker `id`. -/
def life (hash : Bytes → UInt64) (id : ℕ) (w : Worker) : LifeEvent → Worker
  | .event e => step hash id w e
  | .crash env u k => w.crash hash id env u k

theorem life_event (hash : Bytes → UInt64) (id : ℕ) (w : Worker) (e : Event) :
    w.life hash id (.event e) = step hash id w e := rfl

/-- **A crash that the slot of the update can stand.** -/
def CrashOk (hash : Bytes → UInt64) (id : ℕ) (w : Worker) (env : Env) (u : Update) (k : ℕ) : Prop :=
  w.isUp = true → ∀ i, getTabletNumberOnThisWorker numTablets id (tabletOf hash u.row) = some i →
    (w.slots i).CrashOk env u k

/-- **A recovery that brings nothing new**: the coordinator could not be asked, or each
tablet that is copied is the one the files describe. -/
def RecoveryOk (id : ℕ) (copy : ℕ → ℕ → Bytes) (res : Bytes) (w : Worker) : Prop :=
  res.take 3 = ascii "ERR" ∨ ∃ host : Fin 3 → Bytes, (∀ i, IsHost (host i)) ∧ res = answers host ∧
    ∀ i c, workerClientPtrs id (host i) = some c → (w.slots i).recoverFromLocal =
      some (deserializeTablet ∅ (copy c (storedTablet numTablets id i))).2

/-- **What an event has to satisfy** for the files to go on describing the tablets:
requests within the format, recoveries that bring nothing new, crashes that the files
can stand. -/
def LifeOk (hash : Bytes → UInt64) (id : ℕ) (w : Worker) : LifeEvent → Prop
  | .event (.request r env) => WriteOk hash id w (r, env)
  | .event (.adminConsole copy res _ command) =>
    command = ascii "RESTART" → RecoveryOk id copy res w
  | .event (.processRestart copy res) => RecoveryOk id copy res w
  | .crash env u k => WriteOk hash id w (.update u, env) ∧ w.CrashOk hash id env u k

/-- The invariant of a worker that may crash: the files describe tablets within the
format, and as long as the process runs these are the ones in memory. -/
def Intact (w : Worker) : Prop :=
  ∃ T, (w.setTablets T).Sound IsRecord ∧ (w.running = true → w.setTablets T = w)

section Life

variable {hash : Bytes → UInt64} {id : ℕ} {w w' : Worker}

theorem intact_of_sound (h : w.Sound IsRecord) : w.Intact :=
  ⟨fun i => (w.slots i).tablet, h, fun _ => rfl⟩

theorem Intact.sound (h : w.Intact) (hrun : w.running = true) : w.Sound IsRecord := by
  obtain ⟨T, hsound, heq⟩ := h
  rw [← heq hrun]
  exact hsound

/-- What is not running keeps its files and nothing else. -/
theorem Intact.exit (h : w.Intact) : w.exit.Intact := by
  obtain ⟨T, hsound, -⟩ := h
  exact ⟨T, hsound, fun hrun => absurd hrun (by simp [Worker.exit])⟩

theorem Intact.down (h : w.Intact) : w.down.Intact := by
  obtain ⟨T, hsound, heq⟩ := h
  exact ⟨T, hsound, fun hrun => congrArg Worker.down (heq hrun)⟩

/-- A recovery that brings nothing new rebuilds the tablets of the files. -/
theorem recoverAllTablets_of_recoveryOk (hid : IsId numTablets id) {copy : ℕ → ℕ → Bytes}
    {res : Bytes} (hok : RecoveryOk id copy res w) {T : Fin 3 → Tablet}
    (hT : ∀ i, (w.slots i).recoverFromLocal = some (T i))
    (hrec : recoverAllTablets id copy res w = some w') : w' = w.setTablets T := by
  rcases hok with herr | ⟨host, hhost, rfl, hcopies⟩
  · rw [recoverAllTablets, if_pos herr] at hrec
    exact absurd hrec (by simp)
  obtain ⟨T', hT', rfl⟩ := (recoverAllTablets_eq_some hid copy hhost w w').mp hrec
  have hsame : T' = T := by
    funext i
    have hfiles := recoverFromLocal_of_recoverSlot (hcopies i) (hT' i)
    exact Option.some.inj (hfiles.symm.trans (hT i))
  rw [hsame]

theorem Intact.adminConsole (hid : IsId numTablets id) (h : w.Intact) {copy : ℕ → ℕ → Bytes}
    {res password command : Bytes} (hok : command = ascii "RESTART" → RecoveryOk id copy res w) :
    (w.adminConsole id copy res password command).1.Intact := by
  rw [Worker.adminConsole]
  split_ifs with hrun hpassword hdown hrestart hup
  · exact h
  · exact h
  · exact h.down
  · exact h
  · split
    · exact h.exit
    · rename_i hrec
      obtain ⟨T, hsound, -⟩ := h
      obtain rfl := recoverAllTablets_of_recoveryOk hid (hok hrestart)
        (fun i => (hsound i).1.recovers) hrec
      exact intact_of_sound hsound
  · exact h

theorem Intact.main (hid : IsId numTablets id) (h : w.Intact) {copy : ℕ → ℕ → Bytes} {res : Bytes}
    (hok : RecoveryOk id copy res w) : (w.main id copy res).Intact := by
  obtain ⟨T, hsound, -⟩ := h
  have hfresh : (w.fresh.setTablets T).Sound IsRecord :=
    fun i => ⟨⟨(hsound i).1.logged, (hsound i).1.recovers⟩, (hsound i).2⟩
  rw [Worker.main]
  split
  · exact ⟨T, hfresh, fun hrun => absurd hrun (by simp [Worker.exit])⟩
  · rename_i hrec
    have hokfresh : RecoveryOk id copy res w.fresh := hok
    obtain rfl := recoverAllTablets_of_recoveryOk hid hokfresh
      (fun i => (hsound i).1.recovers) hrec
    exact intact_of_sound hfresh

theorem Intact.crash (h : w.Intact) {env : Env} {u : Update}
    (hwrite : WriteOk hash id w (.update u, env)) {k : ℕ} (hok : w.CrashOk hash id env u k) :
    (w.crash hash id env u k).Intact := by
  rw [Worker.crash]
  split_ifs with hup
  · split
    · exact h.exit
    · rename_i i hi
      -- the slot of the update has other files than before, and the others do not
      have hrun : w.running = true := by
        rw [isUp, Bool.and_eq_true] at hup
        exact hup.1
      have hsound := h.sound hrun
      obtain ⟨hu, hcounts⟩ := hwrite u rfl
      obtain ⟨t, ht, hshort⟩ := Slot.durable_crash (hsound i).1 (hsound i).2 hu (hcounts i hi)
        (hok hup i hi)
      refine ⟨fun j => if j = i then t else (w.slots j).tablet, fun j => ?_,
        fun hc => absurd hc (by simp [Worker.exit])⟩
      rcases eq_or_ne j i with rfl | hne
      · simp only [setTablets, Worker.exit, slots_setSlot, if_true]
        exact ⟨ht, hshort⟩
      · simp only [setTablets, Worker.exit, slots_setSlot_of_ne _ hne, if_neg hne]
        exact hsound j
  · exact h.exit

theorem Intact.life (hid : IsId numTablets id) (h : w.Intact) {e : LifeEvent}
    (he : LifeOk hash id w e) : (w.life hash id e).Intact := by
  rcases e with (⟨r, env⟩ | ⟨copy, res, password, command⟩ | ⟨copy, res⟩) | ⟨env, u, k⟩
  · rcases hrun : w.running with _ | _
    · -- nobody answers
      have hup : w.isUp = false := by rw [isUp, hrun, Bool.false_and]
      have hsame : w.serve hash id env r = w := by
        cases r with
        | get row column => rfl
        | update u => exact (handle_of_not_isUp hup env u).1
        | replicate u =>
          rw [serve, replicate_eq]
          exact (handle_of_not_isUp hup env u).1
      rw [life_event, step, hsame]
      exact h
    · exact intact_of_sound (sound_serve (fun u hu => ⟨u, hu, rfl⟩) (fun _ => IsRecord.short)
        (h.sound hrun) he)
  · exact h.adminConsole hid he
  · exact h.main hid he
  · exact h.crash he.1 he.2

/-- The invariant in every state of such a life. -/
theorem intact_of_reaches (hid : IsId numTablets id)
    (h : Runs.Reaches (life hash id) (LifeOk hash id) empty w) : w.Intact :=
  h.invariant (intact_of_sound sound_empty) fun _ _ hs he => hs.life hid he

/-- **Crash consistency.** A running worker has any history behind it whose events all
meet their condition, and is interrupted while it handles a request, after `k` effects.
Then each of its tablets is rebuilt from the files as it was before the request or as it
is after it, exactly when the crash does not come in one of the two dangerous moments of
a checkpoint, or comes there with a log that can stand it. -/
theorem crash_consistent_iff (hid : IsId numTablets id)
    (h : Runs.Reaches (life hash id) (LifeOk hash id) empty w) (hrun : w.running = true)
    {r : Request} {u : Update} (hr : r.writes = some u) {env : Env}
    (hok : WriteOk hash id w (r, env)) (k : ℕ) :
    (∀ i, ∃ t, ((w.crash hash id env u k).slots i).recoverFromLocal = some t ∧
        (t = (w.slots i).tablet ∨ t = ((w.serve hash id env r).slots i).tablet)) ↔
      w.CrashOk hash id env u k := by
  have hsound := (intact_of_reaches hid h).sound hrun
  have hserve : w.serve hash id env r = (handle hash id env u w).1 := by
    cases r with
    | get row column => exact absurd hr (by simp [Request.writes])
    | update v =>
      obtain rfl : v = u := Option.some.inj hr
      rfl
    | replicate v =>
      obtain rfl : v = u := Option.some.inj hr
      rw [serve, replicate_eq]
  have hrecovers : ∀ {c : Worker} (i : Fin 3), c.slots i = w.slots i →
      ∃ t, (c.slots i).recoverFromLocal = some t ∧
        (t = (w.slots i).tablet ∨ t = ((w.serve hash id env r).slots i).tablet) :=
    fun i hc => ⟨_, hc ▸ (hsound i).1.recovers, Or.inl rfl⟩
  rcases hup : w.isUp with _ | _
  · refine iff_of_true (fun i => hrecovers i ?_) fun hc => absurd (hup.symm.trans hc) (by simp)
    simp [crash, hup, exit]
  rcases hi : getTabletNumberOnThisWorker numTablets id (tabletOf hash u.row) with _ | i
  · refine iff_of_true (fun j => hrecovers j ?_) fun _ j hj => absurd (hi.symm.trans hj) (by simp)
    simp [crash, hup, hi, exit]
  -- the other tablets are not touched, so the slot of the update decides
  obtain ⟨hshort, hcounts⟩ := hok u hr
  have hiff := Slot.crashSafe_iff (hsound i).1 hshort
    (fun hdue ho kvs hk => Tablet.fits_of_short
      (Update.noEmptyRow_onTablet (hsound i).1.noEmptyRow hk)
      (hcounts i hi hdue ho kvs hk) (Update.short_onTablet hshort (hsound i).2 hk)) k
  have hslot : (w.crash hash id env u k).slots i = (w.slots i).crash env u k := by
    simp [crash, hup, hi, exit]
  have hafter : (w.serve hash id env r).slots i = ((w.slots i).update env u).1 := by
    rw [hserve, handle_of_isUp hup hi, slots_setSlot]
  constructor
  · intro hall _ j hj
    obtain rfl : i = j := Option.some.inj (hi.symm.trans hj)
    refine hiff.mp ?_
    have hi' := hall i
    rwa [hslot, hafter] at hi'
  · intro hcond j
    rcases eq_or_ne j i with rfl | hne
    · rw [hslot, hafter]
      exact hiff.mpr (hcond hup j hi)
    · refine hrecovers j ?_
      simp [crash, hup, hi, exit, slots_setSlot_of_ne _ hne]

end Life

/-- Worker 1 after a write. -/
noncomputable def writtenWorker : Worker :=
  step (fun _ => 0) 1 empty (.request (.update (.put [1] [2] [3])) ⟨default, true⟩)

/-- Its files have the cell that was written, and nothing else. -/
theorem recoverFromLocal_writtenWorker :
    (writtenWorker.slots 0).recoverFromLocal = some (Tablet.put ∅ [1] [2] [3]) ∧
      ∀ i, i ≠ 0 → (writtenWorker.slots i).recoverFromLocal = some ∅ := by
  refine ⟨recoverFromLocal_oneRecord, fun i hi => ?_⟩
  match i with
  | 1 => exact recoverFromLocal_empty 1
  | 2 => exact recoverFromLocal_empty 2

/-- The same worker after a restart, in which it copies its first tablet from a worker 2
that has the same cell. -/
noncomputable def copiedWorker : Worker :=
  step (fun _ => 0) 1 writtenWorker (.processRestart (copyFrom (fun _ => default) fun _ =>
    holder (Tablet.put ∅ [1] [2] [3])) (answers copyHost))

theorem copiedWorker_eq :
    copiedWorker = writtenWorker.fresh.setTablets ![Tablet.put ∅ [1] [2] [3], ∅, ∅] := by
  obtain ⟨-, hrest⟩ := recoverFromLocal_writtenWorker
  obtain ⟨hfits, hne⟩ := fits_oneCell
  have hfresh : ∀ i, i ≠ 0 → (writtenWorker.fresh.slots i).recoverFromLocal = some ∅ := hrest
  rw [copiedWorker, step, main, recoverAllTablets_copyHost hfresh hfits hne]

/-- Its history, event by event. -/
theorem reaches_copiedWorker :
    Runs.Reaches (life (fun _ => 0) 1) (LifeOk (fun _ => 0) 1) empty copiedWorker := by
  have hwrite : LifeOk (fun _ => 0) 1 empty
      (.event (.request (.update (.put [1] [2] [3])) ⟨default, true⟩)) :=
    (requestOk_put fun _ => rfl).writeOk _
  have hcopy : LifeOk (fun _ => 0) 1 writtenWorker
      (.event (.processRestart (copyFrom (fun _ => default) fun _ =>
        holder (Tablet.put ∅ [1] [2] [3])) (answers copyHost))) := by
    refine Or.inr ⟨copyHost, isHost_copyHost, rfl, fun i c hc => ?_⟩
    obtain ⟨rfl, rfl⟩ := eq_of_copyHost hc
    obtain ⟨hzero, -⟩ := recoverFromLocal_writtenWorker
    exact hzero.trans (congrArg some (copied_from_two fits_oneCell.1 fits_oneCell.2).symm)
  have hwritten : Runs.Reaches (life (fun _ => 0) 1) (LifeOk (fun _ => 0) 1) empty writtenWorker :=
    (Runs.Reaches.refl empty).tail hwrite
  exact hwritten.tail hcopy

/-- A crash of this worker between the record in the log and the count, for instance. -/
theorem crash_consistent_put :
    ∃ t, ((copiedWorker.crash (fun _ => 0) 1 ⟨default, true⟩ (.put [1] [2] [3]) 2).slots
        0).recoverFromLocal = some t ∧
      (t = (copiedWorker.slots 0).tablet ∨ t = ((copiedWorker.serve (fun _ => 0) 1
        ⟨default, true⟩ (.update (.put [1] [2] [3]))).slots 0).tablet) := by
  have hrun : copiedWorker.running = true := by
    rw [copiedWorker_eq]
    rfl
  have hnotDue : ∀ i, (copiedWorker.slots i).checkpointDue = false := by
    rw [copiedWorker_eq]
    exact fun _ => rfl
  refine (crash_consistent_iff (by decide) reaches_copiedWorker hrun rfl
    ((requestOk_put hnotDue).writeOk _) 2).mpr ?_ 0
  exact fun _ _ _ _ _ _ => ⟨by omega, by omega⟩

end Worker

/-! ### A history that a crash destroys -/

namespace Slot

variable {s : Slot} {env : Env} {u : Update} {f : Tablet → Tablet}

/-- The same update again and again, while no checkpoint is due. -/
theorem update_iterate (hf : ∀ kvs, u.onTablet kvs = .ok (f kvs)) {n : ℕ}
    (hn : s.updateRequestCount + n < maxUpdateCount) :
    (fun s => (s.update env u).1)^[n] s = ⟨f^[n] s.tablet,
      s.log ++ Logger.logs (List.replicate n u.record), s.checkpoint,
      s.updateRequestCount + n⟩ := by
  induction n with
  | zero => simp
  | succ n ih =>
    rw [Function.iterate_succ_apply', ih (by omega)]
    have hnot : ¬(checkpointDue ⟨f^[n] s.tablet,
        s.log ++ Logger.logs (List.replicate n u.record), s.checkpoint,
        s.updateRequestCount + n⟩ = true) := by
      simp only [checkpointDue, decide_eq_true_eq]
      omega
    rcases update_cases ⟨f^[n] s.tablet, s.log ++ Logger.logs (List.replicate n u.record),
        s.checkpoint, s.updateRequestCount + n⟩ env u with ⟨st, hst, -⟩ | ⟨kvs, -, ⟨hd, -⟩, -⟩ |
        ⟨kvs, hk, -, he⟩
    · rw [hf] at hst
      exact absurd hst (by simp)
    · exact absurd hd hnot
    · rw [hf] at hk
      rw [he, ← Except.ok.inj hk, List.replicate_succ', Logger.logs_append, ← List.append_assoc,
        Function.iterate_succ_apply']
      simp [logged, Logger.logCommand, Logger.logs, Nat.add_assoc]

/-- Ten times, and the last of them leaves a checkpoint. -/
theorem update_iterate_ten (hf : ∀ kvs, u.onTablet kvs = .ok (f kvs))
    (hn : s.updateRequestCount = 0) (ho : env.opens = true) :
    (fun s => (s.update env u).1)^[10] s = checkpointed env (f^[10] s.tablet) := by
  have hnine : s.updateRequestCount + 9 < maxUpdateCount := by
    rw [hn]
    decide
  rw [Function.iterate_succ_apply', update_iterate hf hnine]
  rcases update_cases ⟨f^[9] s.tablet, s.log ++ Logger.logs (List.replicate 9 u.record),
      s.checkpoint, s.updateRequestCount + 9⟩ env u with ⟨st, hst, -⟩ | ⟨kvs, hk, -, he⟩ |
      ⟨kvs, -, hnot, -⟩
  · rw [hf] at hst
    exact absurd hst (by simp)
  · rw [hf] at hk
    rw [he, ← Except.ok.inj hk]
    exact congrArg (checkpointed env) (Function.iterate_succ_apply' f 9 s.tablet).symm
  · exact absurd ⟨by simp [checkpointDue, maxUpdateCount], ho⟩ hnot

end Slot

namespace Worker

section Repeat

variable {hash : Bytes → UInt64} {id : ℕ} {w : Worker}

theorem slots_iterate (hup : w.isUp = true) {u : Update} {i : Fin 3}
    (hi : getTabletNumberOnThisWorker numTablets id (tabletOf hash u.row) = some i) (env : Env)
    (n : ℕ) :
    ((fun w => step hash id w (.request (.update u) env))^[n] w).isUp = true ∧
      ((fun w => step hash id w (.request (.update u) env))^[n] w).slots i =
        (fun s => (s.update env u).1)^[n] (w.slots i) := by
  induction n with
  | zero => exact ⟨hup, rfl⟩
  | succ n ih =>
    rw [Function.iterate_succ_apply', Function.iterate_succ_apply', step, serve]
    refine ⟨(isUp_handle _ _).trans ih.1, ?_⟩
    rw [handle_of_isUp ih.1 hi, slots_setSlot, ih.2]

end Repeat

/-- The worker after ten writes of one cell and nine of another one. -/
noncomputable def nineteenPuts : Worker :=
  (fun w => step (fun _ => 0) 1 w (.request (.update (.put [1] [4] [5])) ⟨default, true⟩))^[9]
    ((fun w =>
      step (fun _ => 0) 1 w (.request (.update (.put [1] [2] [3])) ⟨default, true⟩))^[10] empty)

/-- Its first tablet: a checkpoint of the first cell, and a log of the second
one. -/
theorem nineteenPuts_slot : nineteenPuts.isUp = true ∧ nineteenPuts.slots 0 =
    ⟨(Tablet.put ∅ [1] [2] [3]).put [1] [4] [5],
      Logger.logs (List.replicate 9 (Update.put [1] [4] [5]).record),
      some (serializeTablet default (Tablet.put ∅ [1] [2] [3])), 9⟩ := by
  have hslot : ∀ u : Update,
      getTabletNumberOnThisWorker numTablets 1 (tabletOf (fun _ => 0) u.row) = some 0 :=
    fun _ => rfl
  obtain ⟨hup, hten⟩ := slots_iterate (w := empty) rfl (hslot (.put [1] [2] [3])) ⟨default, true⟩ 10
  obtain ⟨hup', hnine⟩ := slots_iterate hup (hslot (.put [1] [4] [5])) ⟨default, true⟩ 9
  refine ⟨hup', ?_⟩
  rw [nineteenPuts, hnine, hten, Slot.update_iterate_ten (fun _ => rfl) rfl rfl,
    Slot.update_iterate (fun _ => rfl) (by decide)]
  have hfirst : (fun kvs => Tablet.put kvs [1] [2] [3])^[10] ∅ = Tablet.put ∅ [1] [2] [3] := by
    decide
  have hsecond : (fun kvs => Tablet.put kvs [1] [4] [5])^[9] (Tablet.put ∅ [1] [2] [3]) =
      (Tablet.put ∅ [1] [2] [3]).put [1] [4] [5] := by
    decide
  simp only [Slot.checkpointed, empty, hfirst, hsecond, List.nil_append, Nat.zero_add]

/-- **A crash can lose a cell**: the twentieth write is interrupted when the
checkpoint file has been truncated, and the cell only the checkpoint knew is
gone. -/
theorem truncated_checkpoint_lost :
    ¬∀ i, ∃ t, ((nineteenPuts.crash (fun _ => 0) 1 ⟨default, true⟩ (.put [1] [4] [5]) 4).slots
        i).recoverFromLocal = some t ∧
      (t = (nineteenPuts.slots i).tablet ∨ t = ((nineteenPuts.serve (fun _ => 0) 1 ⟨default, true⟩
        (.update (.put [1] [4] [5]))).slots i).tablet) := by
  intro hall
  obtain ⟨hup, hslot⟩ := nineteenPuts_slot
  have hi : getTabletNumberOnThisWorker numTablets 1
      (tabletOf (fun _ => 0) (Update.put [1] [4] [5]).row) = some 0 := rfl
  have hcrash : (nineteenPuts.crash (fun _ => 0) 1 ⟨default, true⟩ (.put [1] [4] [5]) 4).slots 0 =
      ⟨((Tablet.put ∅ [1] [2] [3]).put [1] [4] [5]).put [1] [4] [5],
        Logger.logs (List.replicate 10 (Update.put [1] [4] [5]).record), some [], 10⟩ := by
    rw [crash, if_pos hup, hi]
    simp only [exit, slots_setSlot, hslot]
    simp [Slot.crash, Update.onTablet, Slot.effects, Slot.checkpointDue, maxUpdateCount,
      Slot.perform, Logger.logCommand_logs]
  have hlost : ((nineteenPuts.crash (fun _ => 0) 1 ⟨default, true⟩ (.put [1] [4] [5]) 4).slots
      0).recoverFromLocal = some (Tablet.put ∅ [1] [4] [5]) := by
    have hshort : ∀ cl ∈ List.replicate 10 (Update.put [1] [4] [5]).record, Logger.Short cl := by
      intro cl hcl
      rw [List.eq_of_mem_replicate hcl]
      exact ⟨by decide, by decide, by decide, by decide, by decide⟩
    rw [hcrash, Slot.recoverFromLocal_logs hshort rfl]
    decide
  -- the cell of the first ten writes is in the tablet before and in the one after
  obtain ⟨t, ht, hor⟩ := hall 0
  obtain rfl : Tablet.put ∅ [1] [4] [5] = t := Option.some.inj (hlost.symm.trans ht)
  rcases hor with hbefore | hafter
  · rw [hslot] at hbefore
    exact absurd hbefore (by decide)
  · rw [serve, handle_of_isUp hup hi, slots_setSlot, hslot, Slot.tablet_update rfl] at hafter
    exact absurd hafter (by decide)

end Worker

end PennCloud
