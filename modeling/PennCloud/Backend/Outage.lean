import PennCloud.Backend.Cluster
import PennCloud.Backend.Durability

/-!
# A tablet through a full outage

The holders of one tablet are shut down and restarted in any order, all of them
possibly being down at once. The first one to come back has only its own files to
recover from, however old they are, and is then copied by the others. So an
acknowledged write survives exactly as far as it is in these files, and two
things decide that: whether a write has been acknowledged while the worker was
down, and whether the worker has copied the tablet from another one without
checkpointing it since – a copy changes the memory and not the files.

`PennCloud.Watch` follows one tablet and keeps these two facts, and the cells as
the acknowledged writes leave them, beside the workers; it changes nothing about
the workers (`PennCloud.Watch.cluster_step`).

* `PennCloud.Watch.tracks_step` – as long as no worker that is behind, or that has
  not checkpointed its copy, comes back alone, every copy that is up has the
  acknowledged cells, and so have the files of every worker that is neither.
* `PennCloud.Watch.get_of_reaches` – so a `Get` returns the last acknowledged
  write.
* `PennCloud.Watch.stale_holder_returns_first` – and without that: a holder that
  was down during a write comes back first, and the write is gone.
-/

namespace PennCloud

open Wire KeyValue Worker

/-- The workers, and what is known about the writes of one tablet. -/
structure Watch where
  /-- The workers. -/
  cluster : Cluster
  /-- The cells of the tablet as the acknowledged writes leave them. -/
  acked : Store (Bytes × Bytes) Bytes
  /-- A write has been acknowledged while the worker was down, and the worker has
  not copied the tablet since. -/
  behind : ℕ → Bool
  /-- The worker has copied the tablet, and not checkpointed it since. -/
  copied : ℕ → Bool

namespace Watch

/-- Whether worker `q` checkpoints the tablet after a write. -/
def checkpoints (t : ℕ) (σ : Cluster) (env : ℕ → Env) (q : ℕ) : Bool :=
  (σ q).isUp && (slotAt q t (σ q)).checkpointDue && (env q).opens

/-- A write on worker `p`. -/
def write (hash : Bytes → UInt64) (t : ℕ) (h : Watch) (u : Update) (env : ℕ → Env) (p : ℕ) :
    Watch :=
  let (σ, st) := h.cluster.write hash env u p
  if tabletOf hash u.row = t ∧ st.isOk = true then
    { cluster := σ
      acked := Function.update h.acked u.cell u.result
      behind := fun q => h.behind q || !(h.cluster q).isUp
      copied := fun q => h.copied q && !checkpoints t h.cluster env q }
  else { h with cluster := σ }

/-- Worker `id` has changed. If it has come up and another copy was up, it has
copied the tablet. -/
def change (t : ℕ) (h : Watch) (id : ℕ) (σ : Cluster) : Watch :=
  if !(h.cluster id).isUp && (σ id).isUp && (firstAlive h.cluster.isAlive t).isSome then
    ⟨σ, h.acked, Function.update h.behind id false, Function.update h.copied id true⟩
  else { h with cluster := σ }

/-- One step of the workers, watched. -/
def step (hash : Bytes → UInt64) (t : ℕ) (h : Watch) : Cluster.Event → Watch
  | .write u env =>
    match Cluster.lookup hash h.cluster.isAlive u.row with
    | none => h
    | some p => h.write hash t u env p
  | .adminConsole id ord password command =>
    h.change t id (h.cluster.step hash (.adminConsole id ord password command))
  | .exit id => h.change t id (h.cluster.step hash (.exit id))
  | .main id ord => h.change t id (h.cluster.step hash (.main id ord))

variable {hash : Bytes → UInt64} {t : ℕ} {h : Watch}

theorem cluster_change (id : ℕ) (σ : Cluster) : (h.change t id σ).cluster = σ := by
  rw [change]
  split_ifs <;> rfl

/-- **The workers do what they do**, watched or not. -/
theorem cluster_step (e : Cluster.Event) :
    (h.step hash t e).cluster = h.cluster.step hash e := by
  cases e with
  | write u env =>
    rw [step, Cluster.step]
    rcases Cluster.lookup hash h.cluster.isAlive u.row with _ | p
    · rfl
    · simp only [write]
      split_ifs <;> rfl
  | adminConsole id ord password command => exact cluster_change _ _
  | exit id => exact cluster_change _ _
  | main id ord => exact cluster_change _ _

/-! ### What is asked of a run -/

/-- What is asked of a write: its strings are short, a worker that serves it can
open the checkpoint file if it has to, and the tablets checkpointed fit the
format. -/
structure WriteOk (hash : Bytes → UInt64) (t : ℕ) (σ : Cluster) (u : Update) (env : ℕ → Env) :
    Prop where
  /-- The strings are shorter than `2 ^ 32` bytes. -/
  short : u.Short
  /-- The checkpoint file can be opened. -/
  opens : Cluster.WriteOk hash σ u env
  /-- What is checkpointed fits the format. -/
  fits : ∀ q, checkpoints t σ env q = true → ∀ kvs,
    u.onTablet (slotAt q t (σ q)).tablet = .ok kvs → kvs.Fits

/-- **What is asked of a worker that comes back**: if another copy is up, it fits
the format; if none is, no write has been acknowledged that the worker missed,
and the worker has checkpointed the tablet since it last copied it. -/
def ReturnOk (t : ℕ) (h : Watch) (id : ℕ) : Prop :=
  id ∈ candidateIds numTablets t →
    match firstAlive h.cluster.isAlive t with
    | none => h.behind id = false ∧ h.copied id = false
    | some c => (slotAt c t (h.cluster c)).tablet.Fits

/-- The condition on a step. -/
def StepOk (hash : Bytes → UInt64) (t : ℕ) (h : Watch) : Cluster.Event → Prop
  | .write u env => tabletOf hash u.row = t → WriteOk hash t h.cluster u env
  | .adminConsole id _ _ command =>
    command = ascii "RESTART" → (h.cluster id).isUp = false → ReturnOk t h id
  | .exit _ => True
  | .main id _ => (h.cluster id).running = false → ReturnOk t h id

/-! ### The invariant -/

/-- **A holder has the acknowledged cells where it should**: in memory when it is
up, and in its files when it is neither behind nor has copied. -/
structure Faithful (t : ℕ) (acked : Store (Bytes × Bytes) Bytes) (behind copied : Bool) (q : ℕ)
    (w : Worker) : Prop where
  /-- A copy that is up has the acknowledged cells. -/
  cells : w.isUp = true → (slotAt q t w).tablet.cells = acked
  /-- A copy that is up is not behind. -/
  current : w.isUp = true → behind = false
  /-- The files have the acknowledged cells. -/
  files : behind = false → copied = false →
    ∃ kvs, (slotAt q t w).recoverFromLocal = some kvs ∧ kvs.cells = acked
  /-- The log consists of complete records. -/
  isLog : (slotAt q t w).IsLog

/-- The invariant: all holders are faithful, and no row is without columns. -/
structure Tracks (t : ℕ) (h : Watch) : Prop where
  /-- All holders are faithful. -/
  holder : ∀ q ∈ candidateIds numTablets t,
    Faithful t h.acked (h.behind q) (h.copied q) q (h.cluster q)
  /-- No row is without columns. -/
  noEmptyRow : ∀ q, (h.cluster q).NoEmptyRow

/-- Nothing has been written, and all workers are up. -/
def start : Watch := ⟨Cluster.start, fun _ => none, fun _ => false, fun _ => false⟩

theorem tracks_start : Tracks t start where
  holder := fun _ _ => ⟨fun _ => rfl, fun _ => rfl,
    fun _ _ => ⟨∅, recoverFromLocal_empty _, rfl⟩, ⟨[], by simp, rfl⟩⟩
  noEmptyRow := fun _ _ => Tablet.noEmptyRow_empty

section Write

variable {u : Update} {env : ℕ → Env} {p q : ℕ}

/-- The files of a holder that is up, after a write that goes well. -/
theorem recoverFromLocal_write {w : Worker} {acked : Store (Bytes × Bytes) Bytes} {copied : Bool}
    (hf : Faithful t acked false copied q w) (hne : w.NoEmptyRow) (hup : w.isUp = true)
    (hshort : u.Short) {e : Env} {kvs : Tablet} (hk : u.onTablet (slotAt q t w).tablet = .ok kvs)
    (hfits : (slotAt q t w).checkpointDue = true → e.opens = true → kvs.Fits)
    (hcopied : copied = true → (slotAt q t w).checkpointDue = true ∧ e.opens = true) :
    ((slotAt q t w).update e u).1.recoverFromLocal = some kvs := by
  by_cases hck : (slotAt q t w).checkpointDue = true ∧ e.opens = true
  · rcases (slotAt q t w).update_cases e u with
      ⟨st, hst, -⟩ | ⟨kvs', hk', -, he⟩ | ⟨kvs', -, hnot, -⟩
    · exact absurd (hk.symm.trans hst) (by simp)
    · obtain rfl : kvs = kvs' := Except.ok.inj (hk.symm.trans hk')
      have hnew := Slot.durable_checkpointed (R := Logger.Short) (fun _ hs => hs) e
        (hfits hck.1 hck.2) (Update.noEmptyRow_onTablet (hne _) hk)
      rw [he]
      exact hnew.recovers
    · exact absurd hck hnot
  · -- no checkpoint is taken, so the files were those of the tablet and get one more record
    have hnot : copied = false := by
      rw [Bool.eq_false_iff]
      exact fun hc => hck (hcopied hc)
    obtain ⟨kvs₀, hrec, hcells⟩ := hf.files rfl hnot
    have hsame : kvs₀ = (slotAt q t w).tablet :=
      Tablet.ext_cells (Slot.noEmptyRow_recoverFromLocal hrec) (hne _)
        (hcells.trans (hf.cells hup).symm)
    have hdurable : (slotAt q t w).Durable Logger.Short := ⟨hf.isLog, hsame ▸ hrec⟩
    have hnew := hdurable.update (fun _ hs => hs) hshort e
      fun hdue hopens => absurd ⟨hdue, hopens⟩ hck
    rw [hnew.recovers, Slot.tablet_update hk]

/-- **A write of the tablet that goes well** is tracked. -/
theorem tracks_write_ok (hT : Tracks (tabletOf hash u.row) h)
    (hp : firstAlive h.cluster.isAlive (tabletOf hash u.row) = some p)
    (hw : WriteOk hash (tabletOf hash u.row) h.cluster u env)
    (hok : (h.cluster.write hash env u p).2.isOk = true) :
    Tracks (tabletOf hash u.row) (h.write hash (tabletOf hash u.row) u env p) := by
  obtain ⟨hpc, hpup⟩ := firstAlive_some hp
  have hwatch : h.write hash (tabletOf hash u.row) u env p =
      ⟨(h.cluster.write hash env u p).1, Function.update h.acked u.cell u.result,
        fun q => h.behind q || !(h.cluster q).isUp,
        fun q => h.copied q && !checkpoints (tabletOf hash u.row) h.cluster env q⟩ := by
    simp [write, hok]
  obtain ⟨kvs, hk⟩ : ∃ kvs,
      u.onTablet (slotAt p (tabletOf hash u.row) (h.cluster p)).tablet = .ok kvs := by
    rw [Cluster.write_status, (slotAt_handle hpc hpup _).2] at hok
    exact (Slot.isOk_update (hw.opens p hp)).mp hok
  have hcells : kvs.cells = Function.update h.acked u.cell u.result := by
    rw [Update.cells_onTablet hk, (hT.holder p hpc).cells hpup]
  rw [hwatch]
  refine ⟨fun q hq => ?_, Cluster.noEmptyRow_write hpc hT.noEmptyRow⟩
  have hf := hT.holder q hq
  dsimp only
  rcases hup : (h.cluster q).isUp with _ | _
  · -- a worker that is down does not change, and is behind now
    rw [Cluster.write_of_not_isUp hpc hup]
    refine ⟨fun hc => ?_, fun hc => ?_, fun hc => ?_, hf.isLog⟩
    · exact absurd hc (by simp [hup])
    · exact absurd hc (by simp [hup])
    · exact absurd hc (by simp)
  · -- a copy that is up accepts the write, since it has the cells of the one that did
    have hsame : (slotAt q (tabletOf hash u.row) (h.cluster q)).tablet =
        (slotAt p (tabletOf hash u.row) (h.cluster p)).tablet :=
      Tablet.ext_cells (hT.noEmptyRow q _) (hT.noEmptyRow p _)
        ((hf.cells hup).trans ((hT.holder p hpc).cells hpup).symm)
    have hkq : u.onTablet (slotAt q (tabletOf hash u.row) (h.cluster q)).tablet = .ok kvs := by
      rw [hsame]
      exact hk
    have hslot := Cluster.slotAt_write hp hok hq hup
    have hcurrent := hf.current hup
    rw [hcurrent] at hf ⊢
    refine ⟨fun _ => ?_, fun _ => rfl, fun _ hcopied => ⟨kvs, ?_, hcells⟩, ?_⟩
    · rw [hslot, Slot.tablet_update hkq]
      exact hcells
    · rw [hslot]
      refine recoverFromLocal_write hf (hT.noEmptyRow q) hup hw.short hkq (fun hdue hopens => ?_)
        fun hc => ?_
      · exact hw.fits q (by simp [checkpoints, hup, hdue, hopens]) kvs hkq
      · simpa [checkpoints, hup, hc] using hcopied
    · rw [hslot]
      exact Slot.logged_update hf.isLog hw.short (env q)

/-- **A write** is tracked. -/
theorem tracks_write (ht : IsId numTablets t) (hT : Tracks t h)
    (hp : firstAlive h.cluster.isAlive (tabletOf hash u.row) = some p)
    (hw : tabletOf hash u.row = t → WriteOk hash t h.cluster u env) :
    Tracks t (h.write hash t u env p) := by
  have hpc := (firstAlive_some hp).1
  rcases eq_or_ne (tabletOf hash u.row) t with rfl | hne
  · rcases hok : (h.cluster.write hash env u p).2.isOk with _ | _
    · have hwatch : h.write hash (tabletOf hash u.row) u env p = h := by
        simp [write, hok, Cluster.write_refused hp ((hw rfl).opens p hp) hok]
      rw [hwatch]
      exact hT
    · exact tracks_write_ok hT hp (hw rfl) hok
  · -- the write of another tablet is not seen
    have hwatch : h.write hash t u env p =
        { h with cluster := (h.cluster.write hash env u p).1 } := by
      simp [write, hne]
    rw [hwatch]
    refine ⟨fun q hq => ?_, Cluster.noEmptyRow_write hpc hT.noEmptyRow⟩
    have hf := hT.holder q hq
    have hslot : slotAt q t ((h.cluster.write hash env u p).1 q) = slotAt q t (h.cluster q) :=
      Cluster.slotAt_write_of_ne hpc ht hq hne
    have hup : ((h.cluster.write hash env u p).1 q).isUp = (h.cluster q).isUp :=
      Cluster.isUp_write hpc q
    refine ⟨fun hc => ?_, fun hc => hf.current (hup ▸ hc), fun hb hc => ?_, ?_⟩
    · rw [hslot]
      exact hf.cells (hup ▸ hc)
    · rw [hslot]
      exact hf.files hb hc
    · rw [hslot]
      exact hf.isLog

end Write

section Change

variable {id : ℕ} {w : Worker}

/-- A holder that has not come up is as faithful as it was. -/
theorem faithful_kept {acked : Store (Bytes × Bytes) Bytes} {behind copied : Bool}
    {σ : Cluster} (hf : Faithful t acked behind copied id (σ id)) (hw : Cluster.Kept σ id w) :
    Faithful t acked behind copied id w := by
  have hfiles : (slotAt id t w).recoverFromLocal = (slotAt id t (σ id)).recoverFromLocal :=
    Slot.recoverFromLocal_congr (hw.log _) (hw.checkpoint _)
  refine ⟨fun hup => ?_, fun hup => ?_, fun hb hc => ?_, ?_⟩
  · have hsame := hw.same hup
    rw [hsame] at hup ⊢
    exact hf.cells hup
  · exact hf.current (hw.same hup ▸ hup)
  · rw [hfiles]
    exact hf.files hb hc
  · obtain ⟨recs, hrecs, hlog⟩ := hf.isLog
    exact ⟨recs, hrecs, (hw.log _).trans hlog⟩

/-- A change of one worker is tracked when that worker is faithful afterwards, if
it is a holder. -/
theorem tracks_update (hT : Tracks t h) {behind copied : Bool} (hne : w.NoEmptyRow)
    (hf : id ∈ candidateIds numTablets t → Faithful t h.acked behind copied id w) :
    Tracks t ⟨Function.update h.cluster id w, h.acked, Function.update h.behind id behind,
      Function.update h.copied id copied⟩ := by
  refine ⟨fun q hq => ?_, fun q => ?_⟩
  · dsimp only
    rcases eq_or_ne q id with rfl | hqid
    · rw [Function.update_self, Function.update_self, Function.update_self]
      exact hf hq
    · rw [Function.update_of_ne hqid, Function.update_of_ne hqid, Function.update_of_ne hqid]
      exact hT.holder q hq
  · dsimp only
    rcases eq_or_ne q id with rfl | hqid
    · rw [Function.update_self]
      exact hne
    · rw [Function.update_of_ne hqid]
      exact hT.noEmptyRow q

theorem tracks_update_cluster (hT : Tracks t h) (hne : w.NoEmptyRow)
    (hf : id ∈ candidateIds numTablets t →
      Faithful t h.acked (h.behind id) (h.copied id) id w) :
    Tracks t { h with cluster := Function.update h.cluster id w } := by
  have hall := tracks_update hT hne hf
  rw [Function.update_eq_self, Function.update_eq_self] at hall
  exact hall

/-- **A worker that has not come up** is tracked. -/
theorem tracks_change_kept (hT : Tracks t h) (hw : Cluster.Kept h.cluster id w)
    (hne : w.NoEmptyRow) : Tracks t (h.change t id (Function.update h.cluster id w)) := by
  have hwatch : h.change t id (Function.update h.cluster id w) =
      { h with cluster := Function.update h.cluster id w } := by
    rw [change, Function.update_self, if_neg]
    intro hcame
    obtain ⟨⟨hdown, hup⟩, -⟩ : ((h.cluster id).isUp = false ∧ w.isUp = true) ∧
        (firstAlive h.cluster.isAlive t).isSome = true := by
      simpa using hcame
    rw [hw.same hup, hdown] at hup
    exact absurd hup (by simp)
  rw [hwatch]
  exact tracks_update_cluster hT hne fun hc => faithful_kept (hT.holder id hc) hw

/-- **A worker that has come up** is tracked: a holder has copied a faithful copy
that is up, or had the acknowledged cells in its own files. -/
theorem tracks_change_recovered (ht : IsId numTablets t) (hT : Tracks t h) {ord : ℕ → IterOrder}
    (hw : Cluster.Recovered h.cluster ord id w) (hne : w.NoEmptyRow) (hok : ReturnOk t h id) :
    Tracks t (h.change t id (Function.update h.cluster id w)) := by
  have hfiles : (slotAt id t w).recoverFromLocal = (slotAt id t (h.cluster id)).recoverFromLocal :=
    Slot.recoverFromLocal_congr (hw.log _) (hw.checkpoint _)
  have hlog : id ∈ candidateIds numTablets t → (slotAt id t w).IsLog := by
    intro hc
    obtain ⟨recs, hrecs, hlog⟩ := (hT.holder id hc).isLog
    exact ⟨recs, hrecs, (hw.log _).trans hlog⟩
  rcases hfirst : firstAlive h.cluster.isAlive t with _ | c
  · have hwatch : h.change t id (Function.update h.cluster id w) =
        { h with cluster := Function.update h.cluster id w } := by
      simp [change, hfirst]
    rw [hwatch]
    refine tracks_update_cluster hT hne fun hc => ?_
    have hreturn := hok hc
    simp only [hfirst] at hreturn
    obtain ⟨hb, hcp⟩ := hreturn
    obtain ⟨kvs, hkvs, hcells⟩ := (hT.holder id hc).files hb hcp
    rcases Cluster.tablet_recovered hw ht hc with ⟨-, hlocal⟩ | ⟨c, hcopy, -, -⟩
    · obtain rfl : (slotAt id t w).tablet = kvs := Option.some.inj (hlocal.symm.trans hkvs)
      exact ⟨fun _ => hcells, fun _ => hb, fun _ _ => ⟨_, hfiles.trans hlocal, hcells⟩, hlog hc⟩
    · exact absurd (hfirst.symm.trans hcopy) (by simp)
  · have hwatch : h.change t id (Function.update h.cluster id w) =
        ⟨Function.update h.cluster id w, h.acked, Function.update h.behind id false,
          Function.update h.copied id true⟩ := by
      simp [change, hfirst, hw.down, hw.isUp]
    rw [hwatch]
    refine tracks_update hT hne fun hc => ?_
    have hreturn := hok hc
    simp only [hfirst] at hreturn
    obtain ⟨hcc, hcup⟩ := firstAlive_some hfirst
    rcases Cluster.tablet_recovered hw ht hc with ⟨hnone, -⟩ | ⟨c', hcopy, -, htablet⟩
    · exact absurd (hfirst.symm.trans hnone) (by simp)
    · obtain rfl : c = c' := Option.some.inj (hfirst.symm.trans hcopy)
      refine ⟨fun _ => ?_, fun _ => rfl, fun _ hfalse => absurd hfalse (by simp), hlog hc⟩
      rw [htablet, Cluster.copyFrom_exact hfirst ht ord hreturn (hT.noEmptyRow c _)]
      exact (hT.holder c hcc).cells hcup

/-- A worker that is none of the six is not seen. -/
theorem tracks_change_of_not_isId (ht : IsId numTablets t) (hT : Tracks t h)
    (hid : ¬IsId numTablets id) (hne : w.NoEmptyRow) :
    Tracks t (h.change t id (Function.update h.cluster id w)) := by
  have hnot : id ∉ candidateIds numTablets t :=
    fun hc => hid (isId_candidate ht hc)
  rw [change]
  split_ifs
  · exact tracks_update hT hne fun hc => absurd hc hnot
  · exact tracks_update_cluster hT hne fun hc => absurd hc hnot

end Change

/-- **Every step is tracked.** -/
theorem tracks_step (ht : IsId numTablets t) (hT : Tracks t h) {e : Cluster.Event}
    (he : StepOk hash t h e) : Tracks t (h.step hash t e) := by
  cases e with
  | write u env =>
    rw [step, Cluster.lookup_eq]
    rcases hp : firstAlive h.cluster.isAlive (tabletOf hash u.row) with _ | p
    · exact hT
    · exact tracks_write ht hT hp he
  | adminConsole id ord password command =>
    rw [step, Cluster.step]
    have hne : ((h.cluster id).adminConsole id (copyFrom ord h.cluster)
        (Cluster.workerLookup h.cluster.isAlive id) password command).1.NoEmptyRow :=
      noEmptyRow_adminConsole (hT.noEmptyRow id) _ _ _ _
    by_cases hid : IsId numTablets id
    · rcases Cluster.adminConsole_cases (σ := h.cluster) hid ord password command with
        hw | ⟨hrestart, hw⟩
      · exact tracks_change_kept hT hw hne
      · exact tracks_change_recovered ht hT hw hne (he hrestart hw.down)
    · exact tracks_change_of_not_isId ht hT hid hne
  | exit id =>
    exact tracks_change_kept hT (Cluster.kept_exit h.cluster id) (hT.noEmptyRow id)
  | main id ord =>
    rw [step, Cluster.step]
    split_ifs with hrun
    · have hself : Cluster.Kept h.cluster id (h.cluster id) :=
        ⟨fun _ => rfl, fun _ => rfl, fun _ => rfl⟩
      have hkept := tracks_change_kept hT hself (hT.noEmptyRow id)
      rw [Function.update_eq_self] at hkept
      exact hkept
    have hrun' : (h.cluster id).running = false := by simpa using hrun
    by_cases hid : IsId numTablets id
    · rcases Cluster.main_cases (σ := h.cluster) hid ord hrun' with hw | hw
      · exact tracks_change_kept hT hw (noEmptyRow_main _ _)
      · exact tracks_change_recovered ht hT hw (noEmptyRow_main _ _) (he hrun')
    · exact tracks_change_of_not_isId ht hT hid (noEmptyRow_main _ _)

/-- **A read returns the last acknowledged write**: whenever a holder of the tablet
is up, the coordinator names one, and its answer is the cell as the acknowledged
writes have left it. -/
theorem get_of_reaches (ht : IsId numTablets t)
    (hreach : Runs.Reaches (step hash t) (StepOk hash t) start h) {row : Bytes}
    (hrow : tabletOf hash row = t)
    (hup : ∃ q ∈ candidateIds numTablets t, (h.cluster q).isUp = true)
    (column : Bytes) : ∃ p, Cluster.lookup hash h.cluster.isAlive row = some p ∧
      Tablet.IsAnswer (h.acked (row, column)) (get hash p row column (h.cluster p)) := by
  have hT : Tracks t h := hreach.invariant tracks_start fun _ _ hs he => tracks_step ht hs he
  subst hrow
  rw [Cluster.lookup_eq]
  rcases hp : firstAlive h.cluster.isAlive (tabletOf hash row) with _ | p
  · obtain ⟨q, hq, hqup⟩ := hup
    have hdead : (h.cluster q).isUp = false := firstAlive_none hp hq
    exact absurd hqup (by simp [hdead])
  · obtain ⟨hpc, hpup⟩ := firstAlive_some hp
    refine ⟨p, rfl, ?_⟩
    rw [get_of_isUp hpc hpup, ← (hT.holder p hpc).cells hpup]
    exact Tablet.isAnswer_get _ row column

/-- A write and a read, for instance. -/
theorem get_after_put :
    let h := step (fun _ => 0) 1 start (.write (.put [1] [2] [3]) Cluster.anyEnv)
    ∃ p, Cluster.lookup (fun _ => 0) h.cluster.isAlive [1] = some p ∧
      Tablet.IsAnswer (h.acked ([1], [2])) (get (fun _ => 0) p [1] [2] (h.cluster p)) := by
  refine get_of_reaches (by decide) ((Runs.Reaches.refl start).tail ?_) rfl
    ⟨1, by decide, ?_⟩ [2]
  · intro _
    refine ⟨⟨by decide, by decide, by decide, by decide, by decide⟩, fun _ _ _ => rfl, ?_⟩
    intro q hq
    exact absurd hq (by simp [checkpoints, start, Cluster.start, slotAt, Slot.checkpointDue,
      Worker.empty, maxUpdateCount])
  · rw [cluster_step]
    exact Cluster.isUp_write (by decide) 1

/-! ### A holder that missed a write -/

theorem acked_change (id : ℕ) (σ : Cluster) : (h.change t id σ).acked = h.acked := by
  rw [change]
  split_ifs <;> rfl

/-- The workers 2 and 3 are shut down, a cell is written, which worker 1 alone
receives, worker 1 is shut down, and worker 2 is restarted. -/
noncomputable def staleRun : Watch :=
  [Cluster.Event.adminConsole 2 (fun _ => default) (ascii "admin") (ascii "SHUTDOWN"),
    .adminConsole 3 (fun _ => default) (ascii "admin") (ascii "SHUTDOWN"),
    .write (.put [1] [2] [3]) Cluster.anyEnv,
    .adminConsole 1 (fun _ => default) (ascii "admin") (ascii "SHUTDOWN"),
    .adminConsole 2 (fun _ => default) (ascii "admin") (ascii "RESTART")].foldl
      (step (fun _ => 0) 1) start

/-- The workers before the write. -/
def staleBefore : Cluster :=
  Function.update (Function.update Cluster.start 2 Worker.empty.down) 3 Worker.empty.down

/-- The workers after the write. -/
noncomputable def staleAfter : Cluster :=
  (staleBefore.write (fun _ => 0) Cluster.anyEnv (.put [1] [2] [3]) 1).1

theorem staleAfter_spec : (staleAfter 1).running = true ∧ staleAfter 2 = Worker.empty.down ∧
    staleAfter 3 = Worker.empty.down := by
  have h1 : 1 ∈ candidateIds numTablets (tabletOf (fun _ => 0) (Update.put [1] [2] [3]).row) :=
    List.mem_cons_self
  refine ⟨?_, ?_, ?_⟩
  · have hup : (staleAfter 1).isUp = true := (Cluster.isUp_write h1 1).trans rfl
    exact (Bool.and_eq_true_iff.mp hup).1
  · exact (Cluster.write_of_not_isUp h1 rfl).trans rfl
  · exact (Cluster.write_of_not_isUp h1 rfl).trans rfl

/-- The two shutdowns before the write. -/
theorem cluster_staleBefore :
    ([Cluster.Event.adminConsole 2 (fun _ => default) (ascii "admin") (ascii "SHUTDOWN"),
      .adminConsole 3 (fun _ => default) (ascii "admin") (ascii "SHUTDOWN")].foldl
        (step (fun _ => 0) 1) start).cluster = staleBefore := by
  rw [List.foldl_cons, List.foldl_cons, List.foldl_nil, cluster_step, cluster_step,
    Cluster.step_shutdown rfl, Cluster.step_shutdown rfl]
  rfl

/-- The write is acknowledged, and the workers are as above when worker 2 is
restarted. -/
theorem staleRun_eq : staleRun.acked ([1], [2]) = some [3] ∧
    staleRun.cluster = Cluster.step (fun _ => 0)
      (Function.update staleAfter 1 (staleAfter 1).down)
      (.adminConsole 2 (fun _ => default) (ascii "admin") (ascii "RESTART")) := by
  obtain ⟨h, hh⟩ : ∃ h,
    [Cluster.Event.adminConsole 2 (fun _ => default) (ascii "admin") (ascii "SHUTDOWN"),
      .adminConsole 3 (fun _ => default) (ascii "admin") (ascii "SHUTDOWN")].foldl
        (step (fun _ => 0) 1) start = h := ⟨_, rfl⟩
  have hbefore : h.cluster = staleBefore := hh ▸ cluster_staleBefore
  have hfirst : firstAlive (Cluster.isAlive h.cluster) 1 = some 1 := by
    rw [hbefore]
    exact List.find?_cons_of_pos rfl
  have hwrite : h.step (fun _ => 0) 1 (.write (.put [1] [2] [3]) Cluster.anyEnv) =
      h.write (fun _ => 0) 1 (.put [1] [2] [3]) Cluster.anyEnv 1 := by
    rw [step, Cluster.lookup_eq]
    exact congrArg (fun o => match o with
      | none => h
      | some p => h.write (fun _ => 0) 1 (.put [1] [2] [3]) Cluster.anyEnv p) hfirst
  have hok : (h.cluster.write (fun _ => 0) Cluster.anyEnv (.put [1] [2] [3]) 1).2.isOk = true := by
    rw [hbefore, Cluster.write_status]
    rfl
  have hrun : staleRun = ((h.write (fun _ => 0) 1 (.put [1] [2] [3]) Cluster.anyEnv 1).step
      (fun _ => 0) 1 (.adminConsole 1 (fun _ => default) (ascii "admin") (ascii "SHUTDOWN"))).step
      (fun _ => 0) 1 (.adminConsole 2 (fun _ => default) (ascii "admin") (ascii "RESTART")) := by
    rw [← hwrite, ← hh]
    rfl
  have hcluster : (h.write (fun _ => 0) 1 (.put [1] [2] [3]) Cluster.anyEnv 1).cluster =
      staleAfter := by
    rw [← hwrite, cluster_step, Cluster.step, Cluster.lookup_eq, staleAfter, hbefore]
    rfl
  refine ⟨?_, ?_⟩
  · have hacked : (h.write (fun _ => 0) 1 (.put [1] [2] [3]) Cluster.anyEnv 1).acked =
        Function.update h.acked ([1], [2]) (some [3]) := by
      simp only [write]
      rw [if_pos ⟨rfl, hok⟩]
      rfl
    rw [hrun, step, acked_change, step, acked_change, hacked, Function.update_self]
  · rw [hrun, cluster_step, cluster_step, hcluster, Cluster.step_shutdown staleAfter_spec.1]

/-- **A holder that missed a write comes back first**, and the write is gone. -/
theorem stale_holder_returns_first :
    (∃ q ∈ candidateIds numTablets 1, (staleRun.cluster q).isUp = true) ∧
      ¬∃ p, Cluster.lookup (fun _ => 0) staleRun.cluster.isAlive [1] = some p ∧
        Tablet.IsAnswer (staleRun.acked ([1], [2]))
          (get (fun _ => 0) p [1] [2] (staleRun.cluster p)) := by
  obtain ⟨hacked, hcluster⟩ := staleRun_eq
  obtain ⟨hrun1, h2, h3⟩ := staleAfter_spec
  -- the workers before the restart
  obtain ⟨σ, hσ⟩ : ∃ σ : Cluster, σ = Function.update staleAfter 1 (staleAfter 1).down := ⟨_, rfl⟩
  rw [← hσ] at hcluster
  have hσ2 : σ 2 = Worker.empty.down := by
    rw [hσ, Function.update_of_ne (by decide), h2]
  have hdown : (σ 2).isUp = false := by
    rw [hσ2]
    rfl
  have hdown1 : (σ 1).isUp = false := by
    rw [hσ, Function.update_self]
    simp [isUp, down]
  have hnone : firstAlive σ.isAlive 1 = none := by
    have hdown3 : (σ 3).isUp = false := by
      rw [hσ, Function.update_of_ne (by decide), h3]
      rfl
    rw [firstAlive, candidateIds, List.find?_cons_of_neg (by simp [Cluster.isAlive, hdown1]),
      List.find?_cons_of_neg, List.find?_cons_of_neg]
    · rfl
    · exact ne_true_of_eq_false hdown3
    · exact ne_true_of_eq_false hdown
  obtain ⟨w, hrec⟩ : ∃ w, recoverAllTablets 2 (copyFrom (fun _ => default) σ)
      (Cluster.workerLookup σ.isAlive 2) (σ 2) = some w := by
    refine Cluster.exists_recoverAllTablets (by decide) _ hdown fun i _ => ⟨∅, ?_⟩
    rw [hσ2]
    exact recoverFromLocal_empty i
  have hrecovered : Cluster.Recovered σ (fun _ => default) 2 w.up :=
    Cluster.recovered_up (by decide) hrec (fun _ => rfl) (fun _ => rfl)
      (by rw [hσ2]; rfl) hdown
  have hfinal : staleRun.cluster = Function.update σ 2 w.up := by
    rw [hcluster, Cluster.step_restart hσ2 rfl hrec]
  have hup : (staleRun.cluster 2).isUp = true := by
    rw [hfinal, Function.update_self]
    exact hrecovered.isUp
  have hfirst : firstAlive (Cluster.isAlive staleRun.cluster) 1 = some 2 := by
    have hdead : ¬Cluster.isAlive staleRun.cluster 1 = true := by
      rw [Cluster.isAlive, hfinal, Function.update_of_ne (by decide)]
      exact ne_true_of_eq_false hdown1
    rw [firstAlive, candidateIds, List.find?_cons_of_neg hdead, List.find?_cons_of_pos]
    · rfl
    · exact hup
  refine ⟨⟨2, by decide, hup⟩, ?_⟩
  rintro ⟨p, hp, hanswer⟩
  rw [Cluster.lookup_eq] at hp
  obtain rfl : 2 = p := Option.some.inj (hfirst.symm.trans hp)
  have hcand : 2 ∈ candidateIds numTablets (tabletOf (fun _ => 0) [1]) := by decide
  rw [hacked, get_of_isUp hcand hup] at hanswer
  have hempty : (slotAt 2 1 (staleRun.cluster 2)).tablet = ∅ := by
    rcases Cluster.tablet_recovered hrecovered (by decide) hcand with
      ⟨-, hlocal⟩ | ⟨c, hc, -⟩
    · have hfiles : (slotAt 2 1 (σ 2)).recoverFromLocal = some ∅ := by
        rw [hσ2]
        exact recoverFromLocal_empty (slotOf 2 1)
      rw [hfinal, Function.update_self]
      exact Option.some.inj (hlocal.symm.trans hfiles)
    · exact absurd (hnone.symm.trans hc) (by simp)
  have hget : (slotAt 2 (tabletOf (fun _ => 0) [1]) (staleRun.cluster 2)).tablet.get [1] [2] =
      Tablet.get ∅ [1] [2] := congrArg (fun kvs => Tablet.get kvs [1] [2]) hempty
  rw [hget] at hanswer
  exact absurd hanswer.1 (by simp)

end Watch

end PennCloud
