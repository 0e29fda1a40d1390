import PennCloud.Backend.Crash
import Mathlib.Order.Bounds.Basic

/-!
# How long a command log gets

The log of a tablet is emptied when a checkpoint is taken, which the count of the
updates since the last one decides. Count and log are not the same thing: the
count is in memory and starts again from zero when the process does, the log is on
disk and does not. So a log can be longer than the count says,

* by nine records for each restart, the updates counted and not yet checkpointed;
* by one record for each checkpoint that could not be taken, because its file
  could not be opened or because the process ended in the middle of the update.

`PennCloud.Slot.LogAtMost` is the invariant, with `n` such records so far. A
checkpoint empties the log and makes up for all of them. In a history with `r`
restarts and `f` failures the longest log has exactly `9 * (r + 1) + f` records.
-/

namespace PennCloud

open Wire

/-! ### The log of one tablet -/

namespace Slot

/-- **The log is complete records, and not many of them**: at most `n` more than
the count says, and at most `n` more than nine. -/
def LogAtMost (n : ℕ) (s : Slot) : Prop :=
  ∃ recs, (∀ cl ∈ recs, Logger.Short cl) ∧ s.log = Logger.logs recs ∧
    recs.length ≤ s.updateRequestCount + n ∧ recs.length ≤ 9 + n

variable {s s' : Slot} {n m : ℕ}

theorem LogAtMost.mono (h : s.LogAtMost n) (hm : n ≤ m) : s.LogAtMost m := by
  obtain ⟨recs, hshort, hlog, hcount, hnine⟩ := h
  exact ⟨recs, hshort, hlog, by omega, by omega⟩

/-- Of the slot, the log and the count matter. -/
theorem LogAtMost.congr (h : s.LogAtMost n) (hlog : s'.log = s.log)
    (hcount : s'.updateRequestCount = s.updateRequestCount) : s'.LogAtMost n := by
  obtain ⟨recs, hshort, hl, hc, hnine⟩ := h
  exact ⟨recs, hshort, hlog.trans hl, hcount.symm ▸ hc, hnine⟩

theorem logAtMost_of_nil (h : s.log = []) : s.LogAtMost n :=
  ⟨[], by simp, h, Nat.zero_le _, Nat.zero_le _⟩

/-- What the log holds is what `getLogs` reads. -/
theorem LogAtMost.length_le (h : s.LogAtMost n) : (Logger.getLogs s.log).length ≤ 9 + n := by
  obtain ⟨recs, hshort, hlog, -, hnine⟩ := h
  rw [hlog, Logger.getLogs_logs hshort]
  exact hnine

/-- One more record, counted or not. -/
theorem LogAtMost.concat (h : s.LogAtMost n) {cl : CommandLog} (hcl : Logger.Short cl)
    (hlog : s'.log = Logger.logCommand s.log cl)
    (hcount : s.updateRequestCount ≤ s'.updateRequestCount) : s'.LogAtMost (n + 1) := by
  obtain ⟨recs, hshort, hl, hc, hnine⟩ := h
  refine ⟨recs ++ [cl], fun c hc' => ?_, ?_, ?_, ?_⟩
  · rcases List.mem_append.mp hc' with hc' | hc'
    · exact hshort c hc'
    · rw [List.mem_singleton.mp hc']
      exact hcl
  · rw [hlog, hl, Logger.logCommand_logs]
  · rw [List.length_append, List.length_singleton]
    omega
  · rw [List.length_append, List.length_singleton]
    omega

/-- A record that is counted without a checkpoint being due. -/
theorem LogAtMost.logged (h : s.LogAtMost n) {u : Update} (hu : u.Short) (kvs : Tablet)
    (hdue : s.checkpointDue = false) : (s.logged u kvs).LogAtMost n := by
  have hlt : s.updateRequestCount < 9 := by simpa [checkpointDue, maxUpdateCount] using hdue
  obtain ⟨recs, hshort, hlog, hcount, hnine⟩ := h
  refine ⟨recs ++ [u.record], fun c hc => ?_, ?_, ?_, ?_⟩
  · rcases List.mem_append.mp hc with hc | hc
    · exact hshort c hc
    · rw [List.mem_singleton.mp hc]
      exact hu
  · rw [Slot.logged, hlog, Logger.logCommand_logs]
  · have hone : recs.length + 1 ≤ s.updateRequestCount + 1 + n := by omega
    rw [List.length_append, List.length_singleton]
    exact hone
  · rw [List.length_append, List.length_singleton]
    omega

/-- **An update** leaves the bound as it is, unless it needs the checkpoint file
and cannot open it. -/
theorem LogAtMost.update (h : s.LogAtMost n) {u : Update} (hu : u.Short) (env : Env) :
    (s.update env u).1.LogAtMost (n + if env.opens then 0 else 1) := by
  rcases s.update_cases env u with ⟨st, -, he⟩ | ⟨kvs, -, -, he⟩ | ⟨kvs, -, hnot, he⟩
  · rw [he]
    exact h.mono (Nat.le_add_right _ _)
  · rw [he]
    exact logAtMost_of_nil rfl
  · rw [he]
    rcases ho : env.opens with _ | _
    · exact h.concat hu rfl (Nat.le_succ _)
    · have hdue : s.checkpointDue = false := by
        rcases hd : s.checkpointDue with _ | _
        · rfl
        · exact absurd ⟨hd, ho⟩ hnot
      exact h.logged hu kvs hdue

/-- **A crash** leaves at most one record more than there was. -/
theorem LogAtMost.crash (h : s.LogAtMost n) {u : Update} (hu : u.Short) (env : Env) (k : ℕ) :
    (s.crash env u k).LogAtMost (n + 1) := by
  have hle : n ≤ n + 1 := Nat.le_succ n
  rcases hk : u.onTablet s.tablet with st | kvs
  · have he : s.crash env u k = s := by simp only [Slot.crash, hk]
    rw [he]
    exact h.mono hle
  have he : s.crash env u k = ((s.effects env u kvs).take k).foldl perform s := by
    simp only [Slot.crash, hk]
  rw [he, effects]
  -- the first three effects come whether or not a checkpoint follows
  rcases k with _ | _ | _ | k
  · exact h.mono hle
  · exact (h.congr rfl rfl).mono hle
  · exact h.concat hu rfl le_rfl
  · have hthree : (s.logged u kvs).LogAtMost (n + 1) := h.concat hu rfl (Nat.le_succ _)
    split_ifs
    · rcases k with _ | _ | _ | _ | k
      · exact hthree
      · exact hthree.congr rfl rfl
      · exact hthree.congr rfl rfl
      · exact logAtMost_of_nil rfl
      · have hall : List.take (k + 4 + 3) ([Effect.memory kvs, .logCommand u.record, .count] ++
            [.truncateCheckpoint, .writeCheckpoint (serializeTablet env.order kvs), .clearLog,
              .resetCount]) = [Effect.memory kvs, .logCommand u.record, .count] ++
            [.truncateCheckpoint, .writeCheckpoint (serializeTablet env.order kvs), .clearLog,
              .resetCount] :=
          List.take_of_length_le (by simp)
        rw [hall]
        exact logAtMost_of_nil rfl
    · have hall : List.take (k + 3) ([Effect.memory kvs, .logCommand u.record, .count] ++ []) =
          [Effect.memory kvs, .logCommand u.record, .count] :=
        List.take_of_length_le (by simp)
      rw [hall]
      exact hthree

end Slot

/-! ### The logs of a worker -/

namespace Worker

/-- The update an event makes, if it makes one. -/
def LifeEvent.writes : LifeEvent → Option Update
  | .event (.request r _) => r.writes
  | .event _ => none
  | .crash _ u _ => some u

/-- The strings of an event are shorter than `2 ^ 32` bytes. -/
def LifeEvent.Short (e : LifeEvent) : Prop := ∀ u, e.writes = some u → u.Short

/-- The process is started again. -/
def LifeEvent.isRestart : LifeEvent → Bool
  | .event (.processRestart _ _) => true
  | _ => false

/-- A checkpoint that may be due cannot be taken: its file does not open, or the
process ends. -/
def LifeEvent.fails : LifeEvent → Bool
  | .event (.request _ env) => !env.opens
  | .event _ => false
  | .crash _ _ _ => true

/-- How many restarts there are in a history. -/
def restarts (es : List LifeEvent) : ℕ := es.countP LifeEvent.isRestart

/-- How many failures there are in a history. -/
def failures (es : List LifeEvent) : ℕ := es.countP LifeEvent.fails

/-- How much longer an event can make a log than the count says. -/
def LifeEvent.slack (e : LifeEvent) : ℕ :=
  9 * (if e.isRestart then 1 else 0) + if e.fails then 1 else 0

/-- The logs of all tablets meet the bound. -/
def LogsAtMost (n : ℕ) (w : Worker) : Prop := ∀ i, (w.slots i).LogAtMost n

section Bound

variable {hash : Bytes → UInt64} {id : ℕ} {w w' : Worker} {n m : ℕ}

theorem LogsAtMost.mono (h : w.LogsAtMost n) (hm : n ≤ m) : w.LogsAtMost m :=
  fun i => (h i).mono hm

theorem LogsAtMost.setSlot (h : w.LogsAtMost n) {i : Fin 3} {s : Slot} (hs : s.LogAtMost n) :
    (w.setSlot i s).LogsAtMost n := by
  intro j
  rcases eq_or_ne j i with rfl | hne
  · rw [slots_setSlot]
    exact hs
  · rw [slots_setSlot_of_ne _ hne]
    exact h j

theorem LogsAtMost.handle (h : w.LogsAtMost n) {u : Update} (hu : u.Short) (env : Env) :
    (handle hash id env u w).1.LogsAtMost (n + if env.opens then 0 else 1) := by
  have hmono := h.mono (Nat.le_add_right n (if env.opens then 0 else 1))
  rcases handle_cases hash id env u w with ⟨he, -⟩ | ⟨i, -, -, he⟩
  · rw [he]
    exact hmono
  · rw [he]
    exact hmono.setSlot ((h i).update hu env)

/-- Recovery reads the logs and leaves them as they are. -/
theorem LogsAtMost.recoverAllTablets {copy : ℕ → ℕ → Bytes} {res : Bytes} (h : w.LogsAtMost n)
    (hrec : recoverAllTablets id copy res w = some w') : w'.LogsAtMost n := by
  rw [Worker.recoverAllTablets] at hrec
  split_ifs at hrec
  generalize recoverPlan (getlines 59 res) id = plan at hrec
  induction plan generalizing w with
  | nil =>
    obtain rfl : w = w' := Option.some.inj hrec
    exact h
  | cons p plan ih =>
    rw [List.foldlM_cons] at hrec
    obtain ⟨w₁, h₁, hrest⟩ := Option.bind_eq_some_iff.mp hrec
    obtain ⟨i, kvs, -, -, rfl⟩ := recoverTablet_cases h₁
    have hround : (w.setTablet i kvs).LogsAtMost n := h.setSlot ((h i).congr rfl rfl)
    exact ih hround hrest

theorem LogsAtMost.adminConsole (h : w.LogsAtMost n) (copy : ℕ → ℕ → Bytes)
    (res password command : Bytes) :
    (w.adminConsole id copy res password command).1.LogsAtMost n := by
  rw [Worker.adminConsole]
  split_ifs
  · exact h
  · exact h
  · exact h
  · exact h
  · split
    · exact h
    · rename_i hrec
      have hnew := h.recoverAllTablets hrec
      exact fun i => hnew i
  · exact h

/-- The count of a new process starts again, the log does not. -/
theorem LogsAtMost.fresh (h : w.LogsAtMost n) : w.fresh.LogsAtMost (n + 9) := by
  intro i
  obtain ⟨recs, hshort, hlog, -, hnine⟩ := h i
  exact ⟨recs, hshort, hlog, by omega, by omega⟩

theorem LogsAtMost.main (h : w.LogsAtMost n) (copy : ℕ → ℕ → Bytes) (res : Bytes) :
    (w.main id copy res).LogsAtMost (n + 9) := by
  rw [Worker.main]
  split
  · exact h.fresh
  · rename_i hrec
    exact h.fresh.recoverAllTablets hrec

theorem LogsAtMost.crash (h : w.LogsAtMost n) {u : Update} (hu : u.Short) (env : Env) (k : ℕ) :
    (w.crash hash id env u k).LogsAtMost (n + 1) := by
  have hmono := h.mono (Nat.le_succ n)
  rw [Worker.crash]
  split_ifs
  · split
    · exact hmono
    · rename_i i hi
      exact hmono.setSlot ((h i).crash hu env k)
  · exact hmono

/-- **An event** adds its slack to the bound. -/
theorem LogsAtMost.life (h : w.LogsAtMost n) {e : LifeEvent} (he : e.Short) :
    (w.life hash id e).LogsAtMost (n + e.slack) := by
  rcases e with (⟨r, env⟩ | ⟨copy, res, password, command⟩ | ⟨copy, res⟩) | ⟨env, u, k⟩
  · have hslack : (LifeEvent.event (.request r env)).slack = if env.opens then 0 else 1 := by
      rcases ho : env.opens with _ | _ <;> simp [LifeEvent.slack, LifeEvent.isRestart,
        LifeEvent.fails, ho]
    rw [hslack]
    cases r with
    | get row column => exact h.mono (Nat.le_add_right _ _)
    | update u => exact h.handle (he u rfl) env
    | replicate u =>
      rw [life_event, step, serve, replicate_eq]
      exact h.handle (he u rfl) env
  · exact h.adminConsole copy res password command
  · exact h.main copy res
  · exact h.crash (he u rfl) env k

/-- **No log outgrows its bound**, whatever the worker has been through. -/
theorem logsAtMost_foldl (es : List LifeEvent) (hes : ∀ e ∈ es, e.Short) (h : w.LogsAtMost n) :
    (es.foldl (Worker.life hash id) w).LogsAtMost (n + (9 * restarts es + failures es)) := by
  induction es generalizing w n with
  | nil => exact h
  | cons e es ih =>
    obtain ⟨hfirst, hrest⟩ := List.forall_mem_cons.mp hes
    refine (ih hrest (h.life hfirst)).mono (le_of_eq ?_)
    rw [restarts, restarts, failures, failures, List.countP_cons, List.countP_cons,
      LifeEvent.slack]
    omega

end Bound

/-! ### Histories with the longest logs -/

section Longest

/-- A `PUT` into a row, with a checkpoint file that opens or does not. -/
def putEvent (ord : IterOrder) (row : Bytes) (opens : Bool) : LifeEvent :=
  .event (.request (.update (.put row [] [])) ⟨ord, opens⟩)

/-- The process is started again and copies its tablets from another worker, which
has nothing in them. -/
def restartEvent (id : ℕ) : LifeEvent :=
  .event (.processRestart (fun _ _ => []) (answers fun _ => address (id % 6 + 1)))

/-- Nine updates, as many as a log takes before a checkpoint, and a restart. -/
def longRound (ord : IterOrder) (row : Bytes) (id : ℕ) : List LifeEvent :=
  List.replicate 9 (putEvent ord row true) ++ [restartEvent id]

/-- Such a round `r` times; nine more updates; and `f` more without a checkpoint
file. -/
def longHistory (ord : IterOrder) (row : Bytes) (id r f : ℕ) : List LifeEvent :=
  (List.replicate r (longRound ord row id)).flatten ++
    (List.replicate 9 (putEvent ord row true) ++ List.replicate f (putEvent ord row false))

variable {hash : Bytes → UInt64} {id : ℕ} {i : Fin 3} {ord : IterOrder} {row : Bytes} {w : Worker}
  {n c : ℕ}

theorem restarts_longHistory (r f : ℕ) : restarts (longHistory ord row id r f) = r := by
  have hround : (longRound ord row id).countP LifeEvent.isRestart = 1 := rfl
  have hput : ∀ b, (putEvent ord row b).isRestart = false := fun _ => rfl
  simp [restarts, longHistory, List.countP_append, List.countP_flatten, hround, hput,
    List.countP_replicate]

theorem failures_longHistory (r f : ℕ) : failures (longHistory ord row id r f) = f := by
  have hround : (longRound ord row id).countP LifeEvent.fails = 0 := rfl
  have hput : ∀ b, (putEvent ord row b).fails = !b := fun _ => rfl
  simp [failures, longHistory, List.countP_append, List.countP_flatten, hround, hput,
    List.countP_replicate]

theorem short_put_nil (hrow : row.length < 2 ^ 32) : (Update.put row [] []).Short := by
  have hput : (ascii "PUT").length < 2 ^ 32 := by decide
  have hnull : (ascii "NULL").length < 2 ^ 32 := by decide
  have hnil : ([] : Bytes).length < 2 ^ 32 := by decide
  exact ⟨hput, hrow, hnil, hnil, hnull⟩

theorem short_longHistory (hrow : row.length < 2 ^ 32) (r f : ℕ) :
    ∀ e ∈ longHistory ord row id r f, e.Short := by
  have hput : ∀ b, (putEvent ord row b).Short := by
    intro b u hu
    obtain rfl : Update.put row [] [] = u := Option.some.inj hu
    exact short_put_nil hrow
  have hrestart : (restartEvent id).Short := fun u hu => absurd hu (by simp [restartEvent,
    LifeEvent.writes])
  intro e he
  simp only [longHistory, longRound, List.mem_append, List.mem_flatten, List.mem_replicate] at he
  rcases he with ⟨es, ⟨-, rfl⟩, hes⟩ | ⟨-, rfl⟩ | ⟨-, rfl⟩
  · simp only [List.mem_append, List.mem_replicate, List.mem_singleton] at hes
    rcases hes with ⟨-, rfl⟩ | rfl
    · exact hput true
    · exact hrestart
  · exact hput true
  · exact hput false

/-- The worker is up, and slot `i` has `n` records in its log and `c` on its count. -/
def HasLog (row : Bytes) (i : Fin 3) (n c : ℕ) (w : Worker) : Prop :=
  w.isUp = true ∧ (w.slots i).log = Logger.logs (List.replicate n (Update.put row [] []).record) ∧
    (w.slots i).updateRequestCount = c

theorem HasLog.put (h : w.HasLog row i n c)
    (hi : getTabletNumberOnThisWorker numTablets id (tabletOf hash row) = some i) {b : Bool}
    (hc : b = true → c + 1 < 10) :
    (w.life hash id (putEvent ord row b)).HasLog row i (n + 1) (c + 1) := by
  obtain ⟨hup, hlog, hcount⟩ := h
  have hlife : w.life hash id (putEvent ord row b) =
      w.setSlot i ((w.slots i).update ⟨ord, b⟩ (.put row [] [])).1 := by
    rw [putEvent, life_event, step, serve, handle_of_isUp hup hi]
  rw [hlife]
  refine ⟨hup, ?_⟩
  rw [slots_setSlot]
  rcases (w.slots i).update_cases ⟨ord, b⟩ (.put row [] []) with ⟨st, hst, -⟩ |
    ⟨kvs, -, ⟨hdue, ho⟩, -⟩ | ⟨kvs, -, -, he⟩
  · exact absurd hst (by simp [Update.onTablet])
  · have hlt := hc ho
    have hge : 9 ≤ c := by simpa [Slot.checkpointDue, maxUpdateCount, hcount] using hdue
    omega
  · rw [he]
    refine ⟨?_, congrArg (· + 1) hcount⟩
    rw [Slot.logged, hlog, Logger.logCommand_logs, List.replicate_succ']

theorem HasLog.putAll (h : w.HasLog row i n c)
    (hi : getTabletNumberOnThisWorker numTablets id (tabletOf hash row) = some i) {b : Bool} {k : ℕ}
    (hc : b = true → c + k < 10) :
    ((List.replicate k (putEvent ord row b)).foldl (life hash id) w).HasLog row i (n + k)
      (c + k) := by
  induction k generalizing w n c with
  | zero => exact h
  | succ k ih =>
    have hfirst : (w.life hash id (putEvent ord row b)).HasLog row i (n + 1) (c + 1) := by
      refine h.put hi fun hb => ?_
      have hlt := hc hb
      omega
    rw [List.replicate_succ, List.foldl_cons, show n + (k + 1) = n + 1 + k by omega,
      show c + (k + 1) = c + 1 + k by omega]
    refine ih hfirst fun hb => ?_
    have hlt := hc hb
    omega

/-- The process comes back with the log it had and a count of zero. -/
theorem HasLog.restart (hid : id ∈ workerIds) (h : w.HasLog row i n c) :
    (w.life hash id (restartEvent id)).HasLog row i n 0 := by
  obtain ⟨-, hlog, -⟩ := h
  have hother : ∀ a ∈ workerIds, a % 6 + 1 ∈ workerIds ∧ a % 6 + 1 ≠ a := by decide
  obtain ⟨hmem, hne⟩ := hother id hid
  have hrec : recoverAllTablets id (fun _ _ => []) (answers fun _ => address (id % 6 + 1)) w.fresh =
      some (w.fresh.setTablets fun _ => (deserializeTablet ∅ []).2) :=
    (recoverAllTablets_eq_some (mem_workerIds.mp hid) _ (fun _ => Or.inr ⟨_, hmem, rfl⟩) _ _).mpr
      ⟨_, fun _ => recoverSlot_address hid hmem hne _ _ _, rfl⟩
  have hlife : w.life hash id (restartEvent id) =
      w.fresh.setTablets fun _ => (deserializeTablet ∅ []).2 := by
    rw [restartEvent, life_event, step, main, hrec]
  rw [hlife]
  exact ⟨rfl, hlog, rfl⟩

theorem HasLog.longRound (hid : id ∈ workerIds) (h : w.HasLog row i n 0)
    (hi : getTabletNumberOnThisWorker numTablets id (tabletOf hash row) = some i) :
    ((longRound ord row id).foldl (life hash id) w).HasLog row i (n + 9) 0 := by
  have hnine : ((List.replicate 9 (putEvent ord row true)).foldl (life hash id) w).HasLog row i
      (n + 9) (0 + 9) := h.putAll hi fun _ => by decide
  have hlast : (((List.replicate 9 (putEvent ord row true)).foldl (life hash id) w).life hash id
      (restartEvent id)).HasLog row i (n + 9) 0 := hnine.restart hid
  rw [Worker.longRound, List.foldl_append, List.foldl_cons, List.foldl_nil]
  exact hlast

theorem HasLog.longHistory (hid : id ∈ workerIds) (h : w.HasLog row i n 0)
    (hi : getTabletNumberOnThisWorker numTablets id (tabletOf hash row) = some i) (r f : ℕ) :
    ((longHistory ord row id r f).foldl (life hash id) w).HasLog row i (n + 9 * (r + 1) + f)
      (9 + f) := by
  have hrounds : ((List.replicate r (Worker.longRound ord row id)).flatten.foldl
      (life hash id) w).HasLog row i (n + 9 * r) 0 := by
    induction r generalizing w n with
    | zero => exact h
    | succ r ih =>
      rw [List.replicate_succ, List.flatten_cons, List.foldl_append,
        show n + 9 * (r + 1) = n + 9 + 9 * r by omega]
      exact ih (h.longRound hid hi)
  rw [Worker.longHistory, List.foldl_append, List.foldl_append,
    show n + 9 * (r + 1) + f = n + 9 * r + 9 + f by omega, show 9 + f = 0 + 9 + f by omega]
  exact (hrounds.putAll hi fun _ => by decide).putAll hi fun hb => absurd hb (by decide)

/-- **The longest log.** Of the histories of a worker with `r` restarts and `f`
failures, whatever requests, recoveries and crashes they consist of, the one with
the longest log of a tablet that some key belongs to has `9 * (r + 1) + f` records
in it. -/
theorem isGreatest_logLength (hid : id ∈ workerIds) (hrow : row.length < 2 ^ 32)
    (hi : getTabletNumberOnThisWorker numTablets id (tabletOf hash row) = some i) (r f : ℕ) :
    IsGreatest {k | ∃ es : List LifeEvent, (∀ e ∈ es, e.Short) ∧ restarts es = r ∧
      failures es = f ∧
      (Logger.getLogs ((es.foldl (life hash id) empty).slots i).log).length = k}
      (9 * (r + 1) + f) := by
  have hempty : empty.HasLog row i 0 0 := ⟨rfl, rfl, rfl⟩
  refine ⟨⟨longHistory default row id r f, short_longHistory hrow r f, restarts_longHistory r f,
    failures_longHistory r f, ?_⟩, ?_⟩
  · have hlong : ((longHistory default row id r f).foldl (life hash id) empty).HasLog row i
        (0 + 9 * (r + 1) + f) (9 + f) := hempty.longHistory hid hi r f
    have hshort : ∀ cl ∈ List.replicate (0 + 9 * (r + 1) + f) (Update.put row [] []).record,
        Logger.Short cl := by
      intro cl hcl
      rw [List.eq_of_mem_replicate hcl]
      exact short_put_nil hrow
    rw [hlong.2.1, Logger.getLogs_logs hshort, List.length_replicate, Nat.zero_add]
  · rintro k ⟨es, hes, rfl, rfl, rfl⟩
    have hstart : empty.LogsAtMost 0 := fun _ => Slot.logAtMost_of_nil rfl
    have hbound : (Logger.getLogs ((es.foldl (life hash id) empty).slots i).log).length ≤
        9 + (0 + (9 * restarts es + failures es)) := (logsAtMost_foldl es hes hstart i).length_le
    omega

/-- Two restarts and a failure: twenty-eight records. -/
theorem isGreatest_logLength_two : IsGreatest {k | ∃ es : List LifeEvent, (∀ e ∈ es, e.Short) ∧
    restarts es = 2 ∧ failures es = 1 ∧ (Logger.getLogs
      ((es.foldl (life (fun _ => 0) 1) empty).slots 0).log).length = k} 28 :=
  @isGreatest_logLength (fun _ => 0) 1 0 [1] (by decide) (by decide) rfl 2 1

example : restarts (longHistory default [1] 0 2 1) = 2 := by decide +kernel

end Longest

end Worker

end PennCloud
