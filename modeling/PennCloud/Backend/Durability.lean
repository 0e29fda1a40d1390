import PennCloud.Backend.Recovery
import PennCloud.Backend.TornLog
import PennCloud.Lib.Runs

/-!
# Checkpoint plus log

The files of a tablet are meant to describe it at any time: decode the
checkpoint, replay the log over it, and the tablet in memory is there again.
`PennCloud.Slot.Durable` is that property, and `PennCloud.Slot.Durable.update`
says that an update keeps it – an update that is logged because one more record
is replayed, an update that is checkpointed because the log starts again from
nothing. The checkpoint has to be readable for that, so a tablet that is
checkpointed must fit the 32-bit counts of the format.

Two histories of a worker are followed from there.

* A worker that recovers from its own files alone. All of its restarts rebuild
  exactly what it had (`PennCloud.Worker.recoverFromLocal_of_reaches`), as long
  as no checkpoint is taken of a tablet with `2 ^ 32` rows, or columns in a row;
  `PennCloud.Worker.wide_checkpoint_lost` is a history that does so.
* A worker that copies its tablets from others. The copy replaces the memory and
  leaves the files as they are, so they describe the tablet afterwards only if
  they happened to describe the copy before; and they go on to do so only if the
  log does not end with a piece of a record
  (`PennCloud.Worker.durable_after_copy_iff`).
-/

namespace PennCloud

open Wire KeyValue

/-! ### The files of one tablet -/

theorem Update.short_onTablet {u : Update} {kvs kvs' : Tablet} (hu : u.Short) (h : kvs.Short)
    (hk : u.onTablet kvs = .ok kvs') : kvs'.Short := by
  cases u with
  | put row column value =>
    obtain rfl : kvs.put row column value = kvs' := Except.ok.inj hk
    exact Tablet.short_put h hu.row hu.column hu.value1
  | cput row column cur new =>
    obtain ⟨-, rfl⟩ := Tablet.cput_ok hk
    exact Tablet.short_put h hu.row hu.column hu.value2
  | delete row column =>
    obtain rfl : kvs.delete row column = kvs' := Except.ok.inj hk
    exact Tablet.short_delete h row column

namespace Slot

/-- **The files describe the tablet**: the log consists of complete records, all
of them of a kind `R`, and recovery from the files gives the tablet in memory. -/
structure Durable (R : CommandLog → Prop) (s : Slot) : Prop where
  /-- The log consists of complete records. -/
  logged : ∃ recs, (∀ cl ∈ recs, R cl) ∧ s.log = Logger.logs recs
  /-- Recovery gives the tablet. -/
  recovers : s.recoverFromLocal = some s.tablet

variable {R : CommandLog → Prop} {s : Slot}

theorem Durable.noEmptyRow (h : s.Durable R) : s.tablet.NoEmptyRow :=
  noEmptyRow_recoverFromLocal h.recovers

theorem Durable.exists_checkpointTablet (h : s.Durable R) :
    ∃ base, s.checkpointTablet = some base := by
  obtain ⟨base, hbase, -⟩ := Option.bind_eq_some_iff.mp h.recovers
  exact ⟨base, hbase⟩

/-- The log consists of complete records of short strings. -/
def IsLog (s : Slot) : Prop := ∃ recs, (∀ cl ∈ recs, Logger.Short cl) ∧ s.log = Logger.logs recs

/-- Recovery from a log of complete records replays exactly these. -/
theorem recoverFromLocal_logs {recs : List CommandLog} (hshort : ∀ cl ∈ recs, Logger.Short cl)
    (hlog : s.log = Logger.logs recs) :
    s.recoverFromLocal = s.checkpointTablet.bind (replayLogs recs) := by
  rw [recoverFromLocal, hlog, Logger.getLogs_logs hshort]

/-- **A log that ends with a piece of a record loses an update**, whichever row the
update is to be made in. -/
theorem exists_put_lost (hlog : ¬s.IsLog) (hrec : s.recoverFromLocal = some s.tablet) {row : Bytes}
    (hrow : row.length < 2 ^ 32) :
    ∃ column value, (Update.put row column value).Short ∧
      ∀ s' : Slot, s'.log = Logger.logCommand s.log (Update.put row column value).record →
        s'.checkpoint = s.checkpoint →
          s'.recoverFromLocal ≠ some (s.tablet.put row column value) := by
  obtain ⟨l, p, hfile, hl, hp⟩ := Logger.exists_piece s.log
  have hne : p ≠ [] := by
    rintro rfl
    exact hlog ⟨l, hl, by rw [hfile, List.append_nil]⟩
  obtain ⟨column, value, hshort, hlost⟩ := Logger.exists_put_lost hne hp hrow s.tablet
  refine ⟨column, value, hshort, fun s' hlog' hck hs' => hlost ?_⟩
  -- the records in front of the piece lead to the tablet, as before
  have hpiece : Logger.getLogs p = [] := by rw [Logger.getLogs, Logger.readLogs, hp]
  obtain ⟨base, hbase, hreplay⟩ := Option.bind_eq_some_iff.mp hrec
  rw [hfile, Logger.getLogs_append hl, hpiece, List.append_nil] at hreplay
  have hbase' : s'.checkpointTablet = some base := by
    rw [checkpointTablet, retrieveCheckpoint, hck]
    exact hbase
  rw [recoverFromLocal, hbase', Option.bind_some, hlog', Logger.logCommand, hfile,
    List.append_assoc, Logger.getLogs_append hl, replayLogs_append, hreplay,
    Option.bind_some] at hs'
  exact hs'

/-- A checkpoint that fits the format decodes to the tablet it was taken of. -/
theorem checkpointTablet_serialize (ord : IterOrder) {kvs : Tablet} (hfits : kvs.Fits)
    (hne : kvs.NoEmptyRow) (hs : s.checkpoint = some (serializeTablet ord kvs)) :
    s.checkpointTablet = some kvs := by
  have hbytes : s.retrieveCheckpoint = serializeTablet ord kvs := by
    rw [retrieveCheckpoint, hs, Option.getD_some]
  rw [checkpointTablet, hbytes, deserializeTablet_exact ord hfits hne]
  rfl

/-- A slot that has just been checkpointed is durable, whatever its files were
before. -/
theorem durable_checkpointed (hR : ∀ cl, R cl → Logger.Short cl) (env : Env) {kvs : Tablet}
    (hfits : kvs.Fits) (hne : kvs.NoEmptyRow) : (checkpointed env kvs).Durable R := by
  have hnone : ∀ cl ∈ ([] : List CommandLog), R cl := by simp
  refine ⟨⟨[], hnone, rfl⟩, ?_⟩
  rw [recoverFromLocal_logs (fun cl hcl => hR cl (hnone cl hcl)) rfl,
    checkpointTablet_serialize env.order hfits hne rfl]
  rfl

/-- An update adds its record to the log, or empties it. -/
theorem logged_update (h : ∃ recs, (∀ cl ∈ recs, R cl) ∧ s.log = Logger.logs recs) {u : Update}
    (hu : R u.record) (env : Env) :
    ∃ recs, (∀ cl ∈ recs, R cl) ∧ (s.update env u).1.log = Logger.logs recs := by
  obtain ⟨recs, hrecs, hlog⟩ := h
  rcases s.update_cases env u with ⟨st, -, he⟩ | ⟨kvs, -, -, he⟩ | ⟨kvs, -, -, he⟩
  · exact ⟨recs, hrecs, he ▸ hlog⟩
  · exact ⟨[], by simp, he ▸ rfl⟩
  · refine ⟨recs ++ [u.record], fun cl hcl => ?_, ?_⟩
    · rcases List.mem_append.mp hcl with hcl | hcl
      · exact hrecs cl hcl
      · rw [List.mem_singleton.mp hcl]
        exact hu
    · rw [← Logger.logCommand_logs, ← hlog, he]
      rfl

/-- **An update keeps the files in step with the tablet.** -/
theorem Durable.update (hR : ∀ cl, R cl → Logger.Short cl) (h : s.Durable R) {u : Update}
    (hu : R u.record) (env : Env)
    (hfits : s.checkpointDue = true → env.opens = true →
      ∀ kvs, u.onTablet s.tablet = .ok kvs → kvs.Fits) :
    (s.update env u).1.Durable R := by
  refine ⟨logged_update h.logged hu env, ?_⟩
  rcases s.update_cases env u with ⟨st, -, he⟩ | ⟨kvs, hk, ⟨hdue, ho⟩, he⟩ | ⟨kvs, hk, -, he⟩
  · rw [he]
    exact h.recovers
  · -- the new checkpoint alone describes the tablet
    have hne : kvs.NoEmptyRow :=
      Update.noEmptyRow_onTablet h.noEmptyRow hk
    rw [he]
    exact (durable_checkpointed hR env (hfits hdue ho kvs hk) hne).recovers
  · -- the old log is replayed as before, and then the new record
    rw [he]
    obtain ⟨recs, hrecs, hlog⟩ := h.logged
    have hlog' : (s.logged u kvs).log = Logger.logs (recs ++ [u.record]) := by
      rw [← Logger.logCommand_logs, ← hlog]
      rfl
    have hshort : ∀ cl ∈ recs ++ [u.record], Logger.Short cl := by
      intro cl hcl
      rcases List.mem_append.mp hcl with hcl | hcl
      · exact hR cl (hrecs cl hcl)
      · rw [List.mem_singleton.mp hcl]
        exact hR _ hu
    have hold := h.recovers
    rw [recoverFromLocal_logs (fun cl hcl => hR cl (hrecs cl hcl)) hlog] at hold
    obtain ⟨base, hbase, hreplay⟩ := Option.bind_eq_some_iff.mp hold
    have hbase' : (s.logged u kvs).checkpointTablet = some base := hbase
    rw [recoverFromLocal_logs hshort hlog', hbase', Option.bind_some, replayLogs_append, hreplay,
      Option.bind_some, replayLogs, replayCommand_record, hk]
    rfl

/-- An update keeps the strings of the tablet short, too, so that only the counts of
the format are left to be asked for. -/
theorem Durable.update_short (hR : ∀ cl, R cl → Logger.Short cl) (h : s.Durable R)
    (hs : s.tablet.Short) {u : Update} (hu : R u.record) {env : Env}
    (hcounts : s.checkpointDue = true → env.opens = true →
      ∀ kvs, u.onTablet s.tablet = .ok kvs → kvs.Counts) :
    (s.update env u).1.Durable R ∧ (s.update env u).1.tablet.Short := by
  have hshort : ∀ kvs, u.onTablet s.tablet = .ok kvs → kvs.Short :=
    fun kvs hk => Update.short_onTablet (hR _ hu) hs hk
  refine ⟨h.update hR hu env fun hdue ho kvs hk => ?_, ?_⟩
  · exact Tablet.fits_of_short (Update.noEmptyRow_onTablet h.noEmptyRow hk)
      (hcounts hdue ho kvs hk) (hshort kvs hk)
  · rcases hk : u.onTablet s.tablet with st | kvs
    · rw [update_error hk]
      exact hs
    · rw [tablet_update hk]
      exact hshort kvs hk

end Slot

/-! ### A worker on its own -/

/-- The update a request makes, if it makes one. -/
def Request.writes : Request → Option Update
  | .get _ _ => none
  | .update u => some u
  | .replicate u => some u

namespace Worker

/-- A record of an update with short strings. -/
def IsRecord (cl : CommandLog) : Prop := ∃ u : Update, u.Short ∧ cl = u.record

theorem IsRecord.short {cl : CommandLog} (h : IsRecord cl) : Logger.Short cl := by
  obtain ⟨u, hu, rfl⟩ := h
  exact hu

/-- The answers of a coordinator that knows no live worker. -/
def allDeadAnswers : Bytes := answers fun _ => allDead

/-- **What a request has to satisfy**: its strings are shorter than `2 ^ 32` bytes,
and if a checkpoint is due after it, the tablet to be checkpointed has fewer than
`2 ^ 32` rows, and fewer than `2 ^ 32` columns in each of them. -/
def RequestOk (hash : Bytes → UInt64) (id : ℕ) (w : Worker) (r : Request) : Prop :=
  ∀ u, r.writes = some u → u.Short ∧ ∀ i,
    getTabletNumberOnThisWorker numTablets id (tabletOf hash u.row) = some i →
      (w.slots i).checkpointDue = true →
      ∀ kvs, u.onTablet (w.slots i).tablet = .ok kvs → kvs.Counts

/-- The same for a request in its surroundings: a checkpoint is taken only when its
file can be opened. -/
def WriteOk (hash : Bytes → UInt64) (id : ℕ) (w : Worker) (e : Request × Env) : Prop :=
  ∀ u, e.1.writes = some u → u.Short ∧ ∀ i,
    getTabletNumberOnThisWorker numTablets id (tabletOf hash u.row) = some i →
      (w.slots i).checkpointDue = true → e.2.opens = true →
      ∀ kvs, u.onTablet (w.slots i).tablet = .ok kvs → kvs.Counts

theorem RequestOk.writeOk {hash : Bytes → UInt64} {id : ℕ} {w : Worker} {r : Request}
    (h : RequestOk hash id w r) (env : Env) : WriteOk hash id w (r, env) := fun u hu =>
  ⟨(h u hu).1, fun i hi hdue _ => (h u hu).2 i hi hdue⟩

/-- **A worker on its own**: its requests are as above, and whenever it recovers the
coordinator knows no live worker, so that it has only its files. -/
def LocalOk (hash : Bytes → UInt64) (id : ℕ) (w : Worker) : Event → Prop
  | .request r _ => RequestOk hash id w r
  | .adminConsole _ res _ _ => res = allDeadAnswers
  | .processRestart _ res => res = allDeadAnswers

/-- The invariant of a worker: the files describe the tablets, and the tablets
have no strings the format cannot write. -/
def Sound (R : CommandLog → Prop) (w : Worker) : Prop :=
  ∀ i, (w.slots i).Durable R ∧ (w.slots i).tablet.Short

section Local

variable {hash : Bytes → UInt64} {id : ℕ} {w : Worker} {R : CommandLog → Prop}

theorem recoverFromLocal_empty (i : Fin 3) : (empty.slots i).recoverFromLocal = some ∅ := by
  have hnil : Logger.getLogs [] = [] := Logger.getLogs_logs (l := []) (by simp)
  rw [Slot.recoverFromLocal, show (empty.slots i).log = [] from rfl, hnil]
  rfl

theorem sound_empty : empty.Sound R :=
  fun i => ⟨⟨⟨[], by simp, rfl⟩, recoverFromLocal_empty i⟩, Tablet.short_empty⟩

theorem sound_handle (hR : ∀ cl, R cl → Logger.Short cl) (h : w.Sound R) {env : Env} {u : Update}
    (hu : R u.record)
    (hcounts : ∀ i, getTabletNumberOnThisWorker numTablets id (tabletOf hash u.row) = some i →
      (w.slots i).checkpointDue = true → env.opens = true →
      ∀ kvs, u.onTablet (w.slots i).tablet = .ok kvs → kvs.Counts) :
    (handle hash id env u w).1.Sound R := by
  rcases handle_cases hash id env u w with ⟨he, -⟩ | ⟨i, hi, -, he⟩
  · rw [he]
    exact h
  intro j
  rcases eq_or_ne j i with rfl | hne
  · rw [he, slots_setSlot]
    exact (h j).1.update_short hR (h j).2 hu (hcounts j hi)
  · rw [he, slots_setSlot_of_ne _ hne]
    exact h j

theorem sound_serve (hrec : ∀ u : Update, u.Short → R u.record)
    (hR : ∀ cl, R cl → Logger.Short cl) (h : w.Sound R) {r : Request} {env : Env}
    (hr : WriteOk hash id w (r, env)) : (w.serve hash id env r).Sound R := by
  cases r with
  | get row column => exact h
  | update u =>
    obtain ⟨hu, hcounts⟩ := hr u rfl
    exact sound_handle hR h (hrec u hu) hcounts
  | replicate u =>
    obtain ⟨hu, hcounts⟩ := hr u rfl
    rw [serve, replicate_eq]
    exact sound_handle hR h (hrec u hu) hcounts

/-- **Recovery from the files of a sound worker gives the tablets it had.** -/
theorem recoverAllTablets_of_recovers (hid : IsId numTablets id) (copy : ℕ → ℕ → Bytes)
    {T : Fin 3 → Tablet}
    (h : ∀ i, (w.slots i).recoverFromLocal = some (T i)) :
    recoverAllTablets id copy allDeadAnswers w = some (w.setTablets T) := by
  refine (recoverAllTablets_eq_some hid _ (fun _ => Or.inl rfl) w _).mpr ⟨T, fun i => ?_, rfl⟩
  rw [recoverSlot, if_pos rfl]
  exact h i

theorem setTablets_self (w : Worker) : w.setTablets (fun i => (w.slots i).tablet) = w := rfl

theorem sound_step (hid : IsId numTablets id) (h : w.Sound IsRecord) {e : Event}
    (he : LocalOk hash id w e) : (step hash id w e).Sound IsRecord := by
  cases e with
  | request r env =>
    exact sound_serve (fun u hu => ⟨u, hu, rfl⟩) (fun _ => IsRecord.short) h (he.writeOk env)
  | adminConsole copy res password command =>
    obtain rfl : res = allDeadAnswers := he
    have hrec := recoverAllTablets_of_recovers hid copy fun i => (h i).1.recovers
    rw [setTablets_self] at hrec
    simp only [step, adminConsole, hrec]
    -- whichever branch is taken, the slots are those of `w`
    split_ifs <;> exact h
  | processRestart copy res =>
    -- the memory is lost, the files rebuild it
    obtain rfl : res = allDeadAnswers := he
    have hfresh : ∀ i, (w.fresh.slots i).recoverFromLocal = some (w.slots i).tablet :=
      fun i => (h i).1.recovers
    have hrec := recoverAllTablets_of_recovers hid copy hfresh
    simp only [step, main, hrec]
    exact fun i => ⟨⟨(h i).1.logged, (h i).1.recovers⟩, (h i).2⟩

/-- The invariant in every state a worker on its own reaches. -/
theorem sound_of_reaches (hid : IsId numTablets id)
    (h : Runs.Reaches (step hash id) (LocalOk hash id) empty w) : w.Sound IsRecord :=
  h.invariant sound_empty fun _ _ hs he => sound_step hid hs he

/-- **Checkpoint plus log is the tablet**, after every event of a worker on its
own. -/
theorem recoverFromLocal_of_reaches (hid : IsId numTablets id)
    (h : Runs.Reaches (step hash id) (LocalOk hash id) empty w) (i : Fin 3) :
    (w.slots i).recoverFromLocal = some (w.slots i).tablet :=
  (sound_of_reaches hid h i).1.recovers

end Local

/-- A write of short strings may be made when no checkpoint is due. -/
theorem requestOk_put {w : Worker} (h : ∀ i, (w.slots i).checkpointDue = false) :
    RequestOk (fun _ => 0) 1 w (.update (.put [1] [2] [3])) := by
  intro u hu
  obtain rfl : Update.put [1] [2] [3] = u := Option.some.inj hu
  refine ⟨⟨by decide, by decide, by decide, by decide, by decide⟩, fun i _ hdue => ?_⟩
  exact absurd hdue (by simp [h i])

/-- A write and a restart of the process, for instance. -/
theorem recoverFromLocal_put_restart :
    let put : Event := .request (.update (.put [1] [2] [3])) ⟨default, true⟩
    let w := step (fun _ => 0) 1 (step (fun _ => 0) 1 empty put)
      (.processRestart (fun _ _ => []) allDeadAnswers)
    (w.slots 0).recoverFromLocal = some (w.slots 0).tablet := by
  refine @recoverFromLocal_of_reaches (fun _ => 0) 1 _ (by decide) ?_ 0
  refine ((Runs.Reaches.refl empty).tail ?_).tail rfl
  exact requestOk_put fun _ => rfl

/-! ### A checkpoint that cannot be read back -/

/-- The requests that write `n` columns into one row, one after the other. -/
def widePuts (env : Env) (n : ℕ) : List Event :=
  (List.range n).map fun k => .request (.update (.put [] (columnKey k) [])) env

/-- The worker these requests lead to. -/
def wideWorker (env : Env) (n : ℕ) : Worker :=
  (widePuts env n).foldl (step (fun _ => 0) 1) empty

theorem wideWorker_succ (env : Env) (n : ℕ) : wideWorker env (n + 1) =
    step (fun _ => 0) 1 (wideWorker env n)
      (.request (.update (.put [] (columnKey n) [])) env) := by
  simp [wideWorker, widePuts, List.range_succ]

/-- After `n` writes the row has `n` columns, and every tenth write has left a
checkpoint and an empty log. -/
theorem wideWorker_slot {env : Env} (henv : env.opens = true) (n : ℕ) :
    (wideWorker env n).isUp = true ∧
    ((wideWorker env n).slots 0).tablet = wideTablet n ∧
    ((wideWorker env n).slots 0).updateRequestCount = n % 10 ∧
    (n ≠ 0 → n % 10 = 0 → ((wideWorker env n).slots 0).log = [] ∧
      ((wideWorker env n).slots 0).checkpoint =
        some (serializeTablet env.order (wideTablet n))) := by
  induction n with
  | zero => exact ⟨rfl, rfl, rfl, fun h => absurd rfl h⟩
  | succ n ih =>
    obtain ⟨hup, htab, hcount, -⟩ := ih
    have hslot : getTabletNumberOnThisWorker numTablets 1
        (tabletOf (fun _ => 0) (Update.put [] (columnKey n) []).row) = some 0 := rfl
    have hstep : wideWorker env (n + 1) = (wideWorker env n).setSlot 0
        (((wideWorker env n).slots 0).update env (.put [] (columnKey n) [])).1 := by
      rw [wideWorker_succ, step, serve, handle_of_isUp hup hslot]
    have hput : (Update.put [] (columnKey n) []).onTablet ((wideWorker env n).slots 0).tablet =
        .ok (wideTablet (n + 1)) := by
      rw [htab]
      rfl
    have hdue : ((wideWorker env n).slots 0).checkpointDue = true ↔ n % 10 = 9 := by
      simp only [Slot.checkpointDue, hcount, maxUpdateCount, decide_eq_true_eq]
      omega
    rw [hstep, isUp_setSlot, slots_setSlot]
    refine ⟨hup, Slot.tablet_update hput _, ?_⟩
    rcases ((wideWorker env n).slots 0).update_cases env (.put [] (columnKey n) []) with
      ⟨st, hst, -⟩ | ⟨kvs, hk, ⟨hd, -⟩, he⟩ | ⟨kvs, hk, hnot, he⟩
    · rw [hput] at hst
      exact absurd hst (by simp)
    · have h9 := hdue.mp hd
      rw [hput] at hk
      rw [he, ← Except.ok.inj hk]
      refine ⟨?_, fun _ _ => ⟨rfl, rfl⟩⟩
      change 0 = (n + 1) % 10
      omega
    · have h9 : n % 10 ≠ 9 := fun hc => hnot ⟨hdue.mpr hc, henv⟩
      rw [he]
      refine ⟨?_, fun _ hc => absurd hc (by omega)⟩
      change ((wideWorker env n).slots 0).updateRequestCount + 1 = (n + 1) % 10
      omega

/-- A checkpoint of a row whose number of columns is a multiple of `2 ^ 32`
decodes, to an empty tablet. -/
theorem wideWorker_recovers {env : Env} (henv : env.opens = true) {n : ℕ} (hn : n ≠ 0)
    (hle : n ≤ 2 ^ 64) (hten : n % 10 = 0) (hmod : n % 2 ^ 32 = 0) :
    ((wideWorker env n).slots 0).recoverFromLocal = some ∅ := by
  obtain ⟨-, -, -, hfiles⟩ := wideWorker_slot henv n
  obtain ⟨hlog, hck⟩ := hfiles hn hten
  have hnil : Logger.getLogs [] = [] := Logger.getLogs_logs (l := []) (by simp)
  rw [Slot.recoverFromLocal, Slot.checkpointTablet, Slot.retrieveCheckpoint, hck,
    Option.getD_some, deserializeTablet_wideTablet env.order hn hle hmod, hlog, hnil]
  rfl

/-- **A checkpoint of a row with `5 · 2 ^ 32` columns loses the row.** -/
theorem wide_checkpoint_lost :
    ((wideWorker ⟨default, true⟩ (5 * 2 ^ 32)).slots 0).recoverFromLocal ≠
      some ((wideWorker ⟨default, true⟩ (5 * 2 ^ 32)).slots 0).tablet := by
  have henv : (⟨default, true⟩ : Env).opens = true := rfl
  have hrec := wideWorker_recovers henv (n := 5 * 2 ^ 32) (by omega) (by omega) (by omega)
    (by omega)
  obtain ⟨-, htab, -⟩ := wideWorker_slot henv (5 * 2 ^ 32)
  rw [hrec, htab]
  intro hc
  exact wideTablet_ne_empty (by omega) (Option.some.inj hc).symm

/-! ### A worker that copies its tablets -/

section Copy

variable {hash : Bytes → UInt64} {id : ℕ} {w w' : Worker} {copy : ℕ → ℕ → Bytes}
  {host : Fin 3 → Bytes}

/-- One request to a worker. -/
def requestStep (hash : Bytes → UInt64) (id : ℕ) (w : Worker) (e : Request × Env) : Worker :=
  w.serve hash id e.2 e.1

/-- The tablet rebuilt from a checkpoint and a log of short records has short
strings. -/
theorem short_recoverFromLocal {s : Slot} {tablet : Tablet} (hs : s.IsLog)
    (h : s.recoverFromLocal = some tablet) : tablet.Short := by
  obtain ⟨recs, hrecs, hlog⟩ := hs
  rw [Slot.recoverFromLocal_logs hrecs hlog] at h
  obtain ⟨base, hbase, hreplay⟩ := Option.bind_eq_some_iff.mp h
  refine short_replayLogs hrecs ?_ hreplay
  rw [Slot.checkpointTablet] at hbase
  split_ifs at hbase
  obtain rfl := Option.some.inj hbase
  exact short_deserializeTablet Tablet.short_empty _

/-- A row whose key the format can write belongs to the tablet. -/
def HasRow (hash : Bytes → UInt64) (id : ℕ) (i : Fin 3) : Prop :=
  ∃ row : Bytes, row.length < 2 ^ 32 ∧
    getTabletNumberOnThisWorker numTablets id (tabletOf hash row) = some i

/-- The invariant after a copy: the files describe the tablets, and the files of those
that can be written to go on to. -/
def Described (hash : Bytes → UInt64) (id : ℕ) (w : Worker) : Prop :=
  ∀ i, (w.slots i).recoverFromLocal = some (w.slots i).tablet ∧
    (HasRow hash id i → (w.slots i).Durable Logger.Short ∧ (w.slots i).tablet.Short)

theorem hasRow_of_short {u : Update} (hu : u.Short) {i : Fin 3}
    (hi : getTabletNumberOnThisWorker numTablets id (tabletOf hash u.row) = some i) :
    HasRow hash id i := by
  refine ⟨u.row, ?_, hi⟩
  cases u with
  | put row column value => exact hu.row
  | cput row column cur new => exact hu.row
  | delete row column => exact hu.row

theorem described_handle (h : w.Described hash id) {env : Env} {u : Update} (hu : u.Short)
    (hcounts : ∀ i, getTabletNumberOnThisWorker numTablets id (tabletOf hash u.row) = some i →
      (w.slots i).checkpointDue = true → env.opens = true →
      ∀ kvs, u.onTablet (w.slots i).tablet = .ok kvs → kvs.Counts) :
    (handle hash id env u w).1.Described hash id := by
  rcases handle_cases hash id env u w with ⟨he, -⟩ | ⟨i, hi, -, he⟩
  · rw [he]
    exact h
  intro j
  rcases eq_or_ne j i with rfl | hne
  · obtain ⟨hd, hs⟩ := (h j).2 (hasRow_of_short hu hi)
    have hupdate := hd.update_short (fun _ hcl => hcl) hs hu (hcounts j hi)
    rw [he, slots_setSlot]
    exact ⟨hupdate.1.recovers, fun _ => hupdate⟩
  · rw [he, slots_setSlot_of_ne _ hne]
    exact h j

theorem described_requestStep (h : w.Described hash id) {e : Request × Env}
    (he : WriteOk hash id w e) : (requestStep hash id w e).Described hash id := by
  obtain ⟨r, env⟩ := e
  cases r with
  | get row column => exact h
  | update u =>
    obtain ⟨hu, hcounts⟩ := he u rfl
    exact described_handle h hu hcounts
  | replicate u =>
    obtain ⟨hu, hcounts⟩ := he u rfl
    rw [requestStep, serve, replicate_eq]
    exact described_handle h hu hcounts

/-- A worker whose files describe its tablets stops being such a worker after one more
request when one of its logs ends with a piece of a record. -/
theorem exists_request_lost (hup : w.isUp = true) {i : Fin 3} (hrow : HasRow hash id i)
    (hrec : (w.slots i).recoverFromLocal = some (w.slots i).tablet) (hlog : ¬(w.slots i).IsLog) :
    ∃ e, WriteOk hash id w e ∧ ((requestStep hash id w e).slots i).recoverFromLocal ≠
      some ((requestStep hash id w e).slots i).tablet := by
  obtain ⟨row, hshort, hi⟩ := hrow
  obtain ⟨column, value, hu, hlost⟩ := Slot.exists_put_lost hlog hrec hshort
  -- no checkpoint is taken, so that the record comes behind the piece
  refine ⟨(.update (.put row column value), ⟨default, false⟩), ?_, ?_⟩
  · rintro u hwrites
    obtain rfl : Update.put row column value = u := Option.some.inj hwrites
    exact ⟨hu, fun _ _ _ hopens => absurd hopens (by simp)⟩
  · rw [requestStep, serve, handle_of_isUp hup hi, slots_setSlot]
    rcases (w.slots i).update_cases ⟨default, false⟩ (.put row column value) with
      ⟨st, hst, -⟩ | ⟨kvs, -, ⟨-, hopens⟩, -⟩ | ⟨kvs, hk, -, he⟩
    · exact absurd hst (by simp [Update.onTablet])
    · exact absurd hopens (by simp)
    · obtain rfl : (w.slots i).tablet.put row column value = kvs := Except.ok.inj hk
      rw [he]
      exact hlost _ rfl rfl

/-- A slot that is sent nothing but what its files describe recovers that. -/
theorem recoverFromLocal_of_recoverSlot {peer : Bytes} {t : ℕ} {s : Slot} {kvs : Tablet}
    (hcopies : ∀ c, workerClientPtrs id peer = some c →
      s.recoverFromLocal = some (deserializeTablet ∅ (copy c t)).2)
    (h : recoverSlot id copy peer t s = some kvs) : s.recoverFromLocal = some kvs := by
  rw [recoverSlot] at h
  split_ifs at h with hdead
  · exact h
  · obtain ⟨c, hc, rfl⟩ := Option.map_eq_some_iff.mp h
    exact hcopies c hc

/-- **When a copy leaves a worker durable.** A running worker has recovered its tablets,
whatever its files were and whatever the coordinator answered. Then its files describe
its tablets, and go on to do so after any further requests, exactly when the files it
had described each tablet it was sent a copy of, and no log of a tablet that can be
written to ends with a piece of a record. -/
theorem durable_after_copy_iff (hid : IsId numTablets id) (hhost : ∀ i, IsHost (host i))
    (hrun : w.running = true) (hrec : recoverAllTablets id copy (answers host) w = some w') :
    (∀ w'', Runs.Reaches (requestStep hash id) (WriteOk hash id) w'.up w'' →
        ∀ i, (w''.slots i).recoverFromLocal = some (w''.slots i).tablet) ↔
      (∀ i c, workerClientPtrs id (host i) = some c → (w.slots i).recoverFromLocal =
        some (deserializeTablet ∅ (copy c (storedTablet numTablets id i))).2) ∧
      ∀ i, HasRow hash id i → (w.slots i).IsLog := by
  obtain ⟨T, hT, rfl⟩ := (recoverAllTablets_eq_some hid copy hhost w w').mp hrec
  constructor
  · intro h
    -- already the worker that has served nothing yet shows whether the copies were described
    have hnow : ∀ i, (w.slots i).recoverFromLocal = some (T i) := h _ (Runs.Reaches.refl _)
    refine ⟨fun i c hc => ?_, fun i hrow => ?_⟩
    · have hTi := hT i
      rw [recoverSlot, if_neg (ne_allDead_of_workerClientPtrs hc), hc] at hTi
      rw [hnow i, ← hTi]
      rfl
    · have hup : (w.setTablets T).up.isUp = true := by simp [isUp, up, setTablets, hrun]
      by_contra hlog
      obtain ⟨e, he, hlost⟩ := exists_request_lost hup hrow (hnow i) hlog
      exact hlost (h _ ((Runs.Reaches.refl _).tail he) i)
  · -- the tablets are what the files describe, and requests keep it so
    rintro ⟨hcopies, hlogs⟩ w'' hreach
    have hnow : ∀ i, (w.slots i).recoverFromLocal = some (T i) := fun i =>
      recoverFromLocal_of_recoverSlot (hcopies i) (hT i)
    have hdescribed : (w.setTablets T).up.Described hash id := fun i =>
      ⟨hnow i, fun hrow => ⟨⟨hlogs i hrow, hnow i⟩, short_recoverFromLocal (hlogs i hrow) (hnow i)⟩⟩
    have hdescribed'' : w''.Described hash id :=
      hreach.invariant hdescribed fun _ _ hs he => described_requestStep hs he
    exact fun i => (hdescribed'' i).1

/-- The coordinator knows worker 2 as the one to copy the first tablet from. -/
def copyHost : Fin 3 → Bytes := ![address 2, allDead, allDead]

theorem isHost_copyHost (i : Fin 3) : IsHost (copyHost i) := by
  match i with
  | 0 => exact Or.inr ⟨2, by decide, rfl⟩
  | 1 => exact Or.inl rfl
  | 2 => exact Or.inl rfl

/-- Nothing else is copied. -/
theorem eq_of_copyHost {i : Fin 3} {c : ℕ} (hc : workerClientPtrs 1 (copyHost i) = some c) :
    i = 0 ∧ c = 2 := by
  match i with
  | 0 =>
    have htwo := workerClientPtrs_address 1 (by decide) 2 (by decide) (by decide)
    exact ⟨rfl, Option.some.inj (hc.symm.trans htwo)⟩
  | 1 => exact absurd rfl (ne_allDead_of_workerClientPtrs hc)
  | 2 => exact absurd rfl (ne_allDead_of_workerClientPtrs hc)

/-- Worker 2 when it holds `kvs` as the first tablet of worker 1. -/
def holder (kvs : Tablet) : Worker := empty.setTablets ![∅, kvs, ∅]

/-- The tablet worker 1 is sent then. -/
theorem copied_from_two {kvs : Tablet} (hfits : kvs.Fits) (hne : kvs.NoEmptyRow) :
    (deserializeTablet ∅ (copyFrom (fun _ => default) (fun _ => holder kvs) 2 1)).2 = kvs := by
  have hexact := copied_exact (w := holder kvs) rfl
    (show getTabletNumberOnThisWorker numTablets 2 1 = some 1 by decide) default hfits hne
  rw [copyFrom, hexact]
  rfl

/-- A tablet with one cell can be copied. -/
theorem fits_oneCell :
    (Tablet.put ∅ [1] [2] [3]).Fits ∧ (Tablet.put ∅ [1] [2] [3]).NoEmptyRow :=
  ⟨Tablet.fits_put_empty (by decide) (by decide) (by decide),
    Tablet.noEmptyRow_put Tablet.noEmptyRow_empty _ _ _⟩

/-- A worker 1 that copies its first tablet from worker 2, and has nothing in the files
of the other two. -/
theorem recoverAllTablets_copyHost (hfiles : ∀ i, i ≠ 0 → (w.slots i).recoverFromLocal = some ∅)
    {kvs : Tablet} (hfits : kvs.Fits) (hne : kvs.NoEmptyRow) :
    recoverAllTablets 1 (copyFrom (fun _ => default) fun _ => holder kvs) (answers copyHost) w =
      some (w.setTablets ![kvs, ∅, ∅]) := by
  refine (recoverAllTablets_eq_some (by decide) _ isHost_copyHost _ _).mpr
    ⟨_, fun i => ?_, rfl⟩
  match i with
  | 0 =>
    have hcopy := recoverSlot_address (by decide : 1 ∈ workerIds) (by decide : 2 ∈ workerIds)
      (by decide) (copyFrom (fun _ => default) fun _ => holder kvs) 1 (w.slots 0)
    rw [copied_from_two hfits hne] at hcopy
    exact hcopy
  | 1 => exact hfiles 1 (by decide)
  | 2 => exact hfiles 2 (by decide)

/-- A new worker with one record in the log of its first tablet. -/
def oneRecord : Worker :=
  let logged := Logger.logs [(Update.put [1] [2] [3]).record]
  { empty with slots := ![⟨∅, logged, none, 0⟩, ⟨∅, [], none, 0⟩, ⟨∅, [], none, 0⟩] }

theorem short_oneRecord : ∀ cl ∈ [(Update.put [1] [2] [3]).record], Logger.Short cl := by
  intro cl hcl
  obtain rfl := List.mem_singleton.mp hcl
  exact ⟨by decide, by decide, by decide, by decide, by decide⟩

theorem isLog_oneRecord (i : Fin 3) : (oneRecord.slots i).IsLog := by
  match i with
  | 0 => exact ⟨_, short_oneRecord, rfl⟩
  | 1 => exact ⟨[], by simp, rfl⟩
  | 2 => exact ⟨[], by simp, rfl⟩

theorem recoverFromLocal_oneRecord :
    (oneRecord.slots 0).recoverFromLocal = some (Tablet.put ∅ [1] [2] [3]) := by
  rw [Slot.recoverFromLocal_logs short_oneRecord rfl]
  decide

/-- A worker with this record is sent a copy of the tablet the record leads to, and is
durable after a write, for instance. -/
theorem durable_after_described_copy :
    let w := requestStep (fun _ => 0) 1 (oneRecord.setTablets ![Tablet.put ∅ [1] [2] [3], ∅, ∅]).up
      (.update (.put [1] [4] [5]), ⟨default, true⟩)
    (w.slots 0).recoverFromLocal = some (w.slots 0).tablet := by
  obtain ⟨hfits, hne⟩ := fits_oneCell
  have hfiles : ∀ i, i ≠ 0 → (oneRecord.slots i).recoverFromLocal = some ∅ := by
    intro i hi
    match i with
    | 1 => exact recoverFromLocal_empty 1
    | 2 => exact recoverFromLocal_empty 2
  refine (durable_after_copy_iff (by decide) isHost_copyHost rfl
    (recoverAllTablets_copyHost hfiles hfits hne)).mpr ⟨?_, fun i _ => isLog_oneRecord i⟩ _
    ((Runs.Reaches.refl _).tail ?_) 0
  · intro i c hc
    obtain ⟨rfl, rfl⟩ := eq_of_copyHost hc
    rw [recoverFromLocal_oneRecord]
    exact congrArg some (copied_from_two hfits hne).symm
  · intro u hu
    obtain rfl : Update.put [1] [4] [5] = u := Option.some.inj hu
    refine ⟨⟨by decide, by decide, by decide, by decide, by decide⟩, fun i hi hdue => ?_⟩
    obtain rfl : (0 : Fin 3) = i := Option.some.inj hi
    exact absurd hdue (by decide)

/-- **A copy is not durable**: a new worker that copies a tablet with one cell
would rebuild an empty one from its files. -/
theorem copy_not_durable :
    ∃ w', recoverAllTablets 1
        (copyFrom (fun _ => default) fun _ => holder (Tablet.put ∅ [1] [2] [3]))
        (answers copyHost) empty = some w' ∧
      (w'.up.slots 0).recoverFromLocal ≠ some (w'.up.slots 0).tablet := by
  obtain ⟨hfits, hne⟩ := fits_oneCell
  refine ⟨_, recoverAllTablets_copyHost (fun i _ => recoverFromLocal_empty i) hfits hne, ?_⟩
  have hempty : ((empty.setTablets ![Tablet.put ∅ [1] [2] [3], ∅, ∅]).up.slots 0).recoverFromLocal
      = some ∅ := recoverFromLocal_empty 0
  rw [hempty]
  decide

end Copy

end Worker

end PennCloud
