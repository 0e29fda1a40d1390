import PennCloud.Backend.Coordinator
import Mathlib.Data.List.Pairwise

/-!
# What the heartbeats are worth

The master node of `backend/coordinator.cc` keeps two hash maps, and an entry of
them may be missing: the constructor enters the six workers into the one, a round
of the monitor enters into the other what it finds in the first, and a map that is
read with `[]` gets an entry when it has none. `PennCloud.Registry` keeps the maps
like that; `PennCloud.MasterNode` is what is left when a missing entry counts as
the one it would get (`PennCloud.Registry.lookup_snd`).

A run is a sequence of heartbeats, rounds of the monitor and questions, the clock
never going back. Two things are said of all runs.

* `PennCloud.Registry.lookup_run` – `Lookup` names the first candidate with a
  heartbeat recorded less than four seconds before the last round of the monitor,
  and no other worker; what the questions entered into the map makes no difference.
* `PennCloud.Registry.alive_run` – `Alive` says that there is no such worker exactly
  when neither a round of the monitor has found an entry for it nor a question has
  made one.
-/

namespace PennCloud

open Wire

/-- The two maps of the master node. -/
structure Registry where
  /-- `lastHeartbeat_`. -/
  lastHeartbeat : ℕ → Option ℤ
  /-- `isAlive`. -/
  isAlive : ℕ → Option Bool

namespace Registry

/-- The maps the constructor makes, at time `now`. -/
def start (now : ℤ) : Registry where
  lastHeartbeat := fun w => if IsId numTablets w then some (now - 3600 * second) else none
  isAlive := fun _ => none

/-- `Heartbeat`. -/
def heartbeat (r : Registry) (now : ℤ) (workerId : ℕ) : Registry :=
  { r with lastHeartbeat := Function.update r.lastHeartbeat workerId (some now) }

/-- One round of the monitor goes through the heartbeats that are recorded. -/
def monitorTick (r : Registry) (now : ℤ) : Registry :=
  { r with isAlive := fun w =>
      match r.lastHeartbeat w with
      | none => r.isAlive w
      | some last => some (if (now - last) / second > 3 then false else true) }

/-- `isAlive[w]`, which makes an entry when there is none. -/
def read (r : Registry) (w : ℕ) : Registry × Bool :=
  match r.isAlive w with
  | none => ({ r with isAlive := Function.update r.isAlive w (some false) }, false)
  | some b => (r, b)

/-- The workers are read in order, up to the first one that is alive. -/
def firstRead (r : Registry) : List ℕ → Registry × Option ℕ
  | [] => (r, none)
  | w :: ws => if (r.read w).2 then ((r.read w).1, some w) else firstRead (r.read w).1 ws

/-- `Lookup`: the maps then, and the answer. -/
def lookup (hash : Bytes → UInt64) (r : Registry) (key : Bytes) :
    Registry × Except Status Bytes :=
  match r.firstRead (candidateIds numTablets (hashToBucket hash key numTablets)) with
  | (r', some w) => (r', .ok (address w))
  | (r', none) => (r', .error ⟨.unavailable, ascii "All workers are down"⟩)

/-- `getCurrentPrimary`. -/
def getCurrentPrimary (r : Registry) (tabletId : ℕ) : Registry × Bytes :=
  match r.firstRead (candidateIds numTablets tabletId) with
  | (r', some w) => (r', address w)
  | (r', none) => (r', allDead)

/-- `WorkerLookup`. -/
def workerLookup (r : Registry) (workerId : ℕ) : Registry × List Bytes :=
  let (r₁, primary) := r.getCurrentPrimary workerId
  let (r₂, secondary) := r₁.getCurrentPrimary ((workerId + numTablets - 2) % numTablets + 1)
  let (r₃, tertiary) := r₂.getCurrentPrimary ((workerId + numTablets - 3) % numTablets + 1)
  (r₃, [primary, secondary, tertiary])

/-- `Alive`. -/
def alive (r : Registry) (workerId : ℕ) : Except Status Bool :=
  match r.isAlive workerId with
  | none => .error ⟨.invalidArgument, ascii "Only workers 1-6 exist."⟩
  | some b => .ok b

/-- What happens at the master node. -/
inductive Event where
  /-- A heartbeat of a worker is recorded at time `now`. -/
  | heartbeat (workerId : ℕ) (now : ℤ)
  /-- The monitor makes a round at time `now`. -/
  | monitorTick (now : ℤ)
  /-- `Lookup` is asked. -/
  | lookup (key : Bytes)
  /-- `WorkerLookup` is asked. -/
  | workerLookup (workerId : ℕ)
  /-- `Alive` is asked. -/
  | alive (workerId : ℕ)
  deriving DecidableEq

/-- The time of an event, where it has one. -/
def Event.time : Event → Option ℤ
  | .heartbeat _ now => some now
  | .monitorTick now => some now
  | _ => none

/-- One event. -/
def step (hash : Bytes → UInt64) (r : Registry) : Event → Registry
  | .heartbeat workerId now => r.heartbeat now workerId
  | .monitorTick now => r.monitorTick now
  | .lookup key => (r.lookup hash key).1
  | .workerLookup workerId => (r.workerLookup workerId).1
  | .alive _ => r

/-- The maps after some events. -/
def run (hash : Bytes → UInt64) (now : ℤ) (es : List Event) : Registry :=
  es.foldl (step hash) (start now)

/-- The clock does not go back. -/
def Clocked (now : ℤ) (es : List Event) : Prop :=
  (now :: es.filterMap Event.time).Pairwise (· ≤ ·)

instance (now : ℤ) (es : List Event) : Decidable (Clocked now es) :=
  inferInstanceAs (Decidable (List.Pairwise _ _))

/-! ### Questions -/

variable {r : Registry} {w : ℕ}

theorem read_snd (r : Registry) (w : ℕ) : (r.read w).2 = (r.isAlive w).getD false := by
  rw [read]
  rcases r.isAlive w with _ | b <;> rfl

/-- An entry is made where there is none, and counts as before. -/
theorem isAlive_read (r : Registry) (w v : ℕ) : (r.read w).1.isAlive v =
    if v = w then some ((r.isAlive w).getD false) else r.isAlive v := by
  rw [read]
  rcases hw : r.isAlive w with _ | b
  · split_ifs with h
    · rw [h]
      simp
    · simp [Function.update_of_ne h]
  · split_ifs with h
    · rw [h, hw]
      rfl
    · rfl

theorem lastHeartbeat_read (r : Registry) (w : ℕ) :
    (r.read w).1.lastHeartbeat = r.lastHeartbeat := by
  rw [read]
  rcases r.isAlive w with _ | b <;> rfl

/-- The workers up to the first one that is alive. -/
def upTo (alive : ℕ → Bool) : List ℕ → List ℕ
  | [] => []
  | w :: ws => if alive w then [w] else w :: upTo alive ws

/-- Whether a worker counts as alive, a missing entry being one that says no. -/
def counted (r : Registry) (w : ℕ) : Bool := (r.isAlive w).getD false

@[simp] theorem counted_read (r : Registry) (w : ℕ) : (r.read w).1.counted = r.counted := by
  funext v
  rw [counted, isAlive_read]
  split_ifs with hv
  · rw [hv]
    rfl
  · rfl

/-- **What reading a list of workers does**: entries that were missing are there
after it, and count as before. -/
theorem isAlive_firstRead (ws : List ℕ) (r : Registry) (v : ℕ) :
    (r.firstRead ws).1.isAlive v =
      if v ∈ upTo r.counted ws then some (r.counted v) else r.isAlive v := by
  induction ws generalizing r with
  | nil => rfl
  | cons w ws ih =>
    rcases halive : r.counted w with _ | _
    · have hfirst : r.firstRead (w :: ws) = (r.read w).1.firstRead ws := by
        rw [firstRead, read_snd, show (r.isAlive w).getD false = false from halive]
        rfl
      rw [hfirst, upTo, halive, ih, counted_read, isAlive_read]
      by_cases hv : v = w
      · simp [hv, counted]
      · simp [hv]
    · have hfirst : (r.firstRead (w :: ws)).1 = (r.read w).1 := by
        rw [firstRead, read_snd, show (r.isAlive w).getD false = true from halive]
        rfl
      rw [hfirst, upTo, halive, isAlive_read]
      by_cases hv : v = w
      · simp [hv, counted]
      · simp [hv]

@[simp] theorem counted_firstRead (ws : List ℕ) (r : Registry) :
    (r.firstRead ws).1.counted = r.counted := by
  funext v
  rw [counted, isAlive_firstRead]
  split_ifs
  · rfl
  · rfl

@[simp] theorem lastHeartbeat_firstRead (ws : List ℕ) (r : Registry) :
    (r.firstRead ws).1.lastHeartbeat = r.lastHeartbeat := by
  induction ws generalizing r with
  | nil => rfl
  | cons w ws ih =>
    rw [firstRead]
    split_ifs
    · exact lastHeartbeat_read r w
    · rw [ih, lastHeartbeat_read]

/-- The first worker that is alive is found. -/
theorem firstRead_snd (ws : List ℕ) (r : Registry) :
    (r.firstRead ws).2 = ws.find? r.counted := by
  induction ws generalizing r with
  | nil => rfl
  | cons w ws ih =>
    rw [firstRead, read_snd]
    rcases halive : (r.isAlive w).getD false with _ | _
    · rw [if_neg (by simp), ih, counted_read]
      exact (List.find?_cons_of_neg (p := r.counted) (by simp [counted, halive])).symm
    · rw [if_pos rfl]
      exact (List.find?_cons_of_pos (p := r.counted) halive).symm

theorem lookup_fst (hash : Bytes → UInt64) (r : Registry) (key : Bytes) :
    (r.lookup hash key).1 = (r.firstRead (candidateIds numTablets (tabletOf hash key))).1 := by
  rw [lookup, tabletOf]
  rcases r.firstRead (candidateIds numTablets (hashToBucket hash key numTablets)) with
    ⟨r', _ | w⟩ <;> rfl

theorem getCurrentPrimary_fst (r : Registry) (t : ℕ) :
    (r.getCurrentPrimary t).1 = (r.firstRead (candidateIds numTablets t)).1 := by
  rw [getCurrentPrimary]
  rcases r.firstRead (candidateIds numTablets t) with ⟨r', _ | w⟩ <;> rfl

/-- **A lookup answers** as the master node does for the workers that count. -/
theorem lookup_snd (hash : Bytes → UInt64) (r : Registry) (key : Bytes) :
    (r.lookup hash key).2 = (MasterNode.mk (fun _ => 0) r.counted).lookup hash key := by
  have hfound := r.firstRead_snd (candidateIds numTablets (tabletOf hash key))
  rw [MasterNode.lookup_eq, firstAlive, lookup, ← tabletOf]
  rw [← hfound]
  rcases r.firstRead (candidateIds numTablets (tabletOf hash key)) with ⟨r', _ | w⟩ <;> rfl

theorem getCurrentPrimary_snd (r : Registry) (t : ℕ) :
    (r.getCurrentPrimary t).2 = PennCloud.getCurrentPrimary r.counted t := by
  have hfound := r.firstRead_snd (candidateIds numTablets t)
  rw [PennCloud.getCurrentPrimary, ← hfound, getCurrentPrimary]
  rcases r.firstRead (candidateIds numTablets t) with ⟨r', _ | w⟩ <;> rfl

/-- So does the answer to a worker. -/
theorem workerLookup_snd (r : Registry) (id : ℕ) : (r.workerLookup id).2 =
    PennCloud.workerLookup r.counted r.counted r.counted id := by
  rw [workerLookup, PennCloud.workerLookup]
  simp only [getCurrentPrimary_snd, getCurrentPrimary_fst, counted_firstRead]

/-! ### What a run comes to -/

/-- A heartbeat of the worker was recorded less than four seconds before `now`. -/
def heardFrom (es : List Event) (now : ℤ) (w : ℕ) : Bool :=
  es.any fun e =>
    match e with
    | .heartbeat v t => v = w ∧ now < t + 4 * second
    | _ => false

/-- Whether an event is a round of the monitor. -/
def Event.isTick : Event → Bool
  | .monitorTick _ => true
  | _ => false

/-- The last round of the monitor: the events before it, and its time. -/
def lastTick (es : List Event) : Option (List Event × ℤ) :=
  match es.reverse.dropWhile fun e => !e.isTick with
  | .monitorTick now :: before => some (before.reverse, now)
  | _ => none

/-- **The workers taken for alive**: those heard from at the last round of the
monitor. -/
def believed (es : List Event) (w : ℕ) : Bool :=
  match lastTick es with
  | none => false
  | some (before, now) => heardFrom before now w

/-- The entries a question reads. -/
def asked (hash : Bytes → UInt64) (es : List Event) : Event → List ℕ
  | .lookup key => upTo (believed es) (candidateIds numTablets (tabletOf hash key))
  | .workerLookup id => upTo (believed es) (candidateIds numTablets id) ++
      (upTo (believed es) (candidateIds numTablets (prev1 numTablets id)) ++
        upTo (believed es) (candidateIds numTablets (prev2 numTablets id)))
  | _ => []

/-- An event makes an entry for a worker, unless there is one already. -/
def Enters (hash : Bytes → UInt64) (es : List Event) (w : ℕ) : Event → Prop
  | .monitorTick _ => IsId numTablets w ∨ ∃ t, .heartbeat w t ∈ es
  | e => w ∈ asked hash es e

/-- **A worker is known**: some event has made an entry for it. -/
def Known (hash : Bytes → UInt64) (es : List Event) (w : ℕ) : Prop :=
  ∃ before e, before ++ [e] <+: es ∧ Enters hash before w e

variable {hash : Bytes → UInt64} {now : ℤ} {es : List Event} {e : Event}

theorem heardFrom_iff : heardFrom es now w = true ↔
    ∃ t, Event.heartbeat w t ∈ es ∧ now < t + 4 * second := by
  rw [heardFrom, List.any_eq_true]
  constructor
  · rintro ⟨e, he, hw⟩
    cases e with
    | heartbeat v t =>
      obtain ⟨rfl, ht⟩ : v = w ∧ now < t + 4 * second := by simpa using hw
      exact ⟨t, he, ht⟩
    | _ => exact absurd hw (by simp)
  · rintro ⟨t, he, ht⟩
    exact ⟨_, he, by simpa using ht⟩

theorem lastTick_concat_tick : lastTick (es ++ [.monitorTick now]) = some (es, now) := by
  simp [lastTick, Event.isTick]

theorem lastTick_concat (h : e.isTick = false) : lastTick (es ++ [e]) = lastTick es := by
  simp [lastTick, h]

theorem believed_concat (h : e.isTick = false) : believed (es ++ [e]) = believed es := by
  funext w
  rw [believed, lastTick_concat h, believed]

theorem believed_concat_tick : believed (es ++ [.monitorTick now]) = heardFrom es now := by
  funext w
  rw [believed, lastTick_concat_tick]

theorem known_concat : Known hash (es ++ [e]) w ↔ Known hash es w ∨ Enters hash es w e := by
  constructor
  · rintro ⟨before, e', hpre, henters⟩
    rcases List.prefix_concat_iff.mp hpre with heq | hpre
    · obtain ⟨rfl, he⟩ := List.append_inj' heq rfl
      obtain rfl : e' = e := by simpa using he
      exact Or.inr henters
    · exact Or.inl ⟨before, e', hpre, henters⟩
  · rintro (⟨before, e', hpre, henters⟩ | henters)
    · exact ⟨before, e', hpre.trans (List.prefix_append es [e]), henters⟩
    · exact ⟨es, e, List.prefix_rfl, henters⟩

theorem Clocked.init (h : Clocked now (es ++ [e])) : Clocked now es := by
  rw [Clocked, List.filterMap_append, ← List.cons_append, List.pairwise_append] at h
  exact h.1

/-- The clock of an event is not behind those before it. -/
theorem Clocked.le (h : Clocked now (es ++ [e])) {t : ℤ} (ht : e.time = some t) :
    now ≤ t ∧ ∀ w t', Event.heartbeat w t' ∈ es → t' ≤ t := by
  rw [Clocked, List.filterMap_append, ← List.cons_append, List.pairwise_append] at h
  have hle : ∀ t' ∈ now :: es.filterMap Event.time, t' ≤ t := by
    intro t' ht'
    exact h.2.2 t' ht' t (by simp [ht])
  refine ⟨hle now List.mem_cons_self, fun w t' hmem => hle t' (List.mem_cons_of_mem _ ?_)⟩
  exact List.mem_filterMap.mpr ⟨_, hmem, rfl⟩

/-! ### The maps after a run -/

theorem run_concat : run hash now (es ++ [e]) = step hash (run hash now es) e := by
  simp [run]

/-- Only a heartbeat changes what is recorded. -/
theorem lastHeartbeat_step (h : ∀ w t, e ≠ .heartbeat w t) :
    (step hash r e).lastHeartbeat = r.lastHeartbeat := by
  cases e with
  | heartbeat v t => exact absurd rfl (h v t)
  | monitorTick t => rfl
  | lookup key => rw [step, lookup_fst, lastHeartbeat_firstRead]
  | workerLookup id =>
    rw [step, workerLookup]
    simp only [getCurrentPrimary_fst, lastHeartbeat_firstRead]
  | alive id => rfl

/-- **What is recorded**: the last heartbeat, or what the constructor entered. -/
structure Recorded (hash : Bytes → UInt64) (now : ℤ) (es : List Event) : Prop where
  /-- Everything recorded comes from there. -/
  sound : ∀ w last, (run hash now es).lastHeartbeat w = some last →
    .heartbeat w last ∈ es ∨ (IsId numTablets w ∧ last = now - 3600 * second)
  /-- No later heartbeat is forgotten. -/
  latest : ∀ w t, .heartbeat w t ∈ es →
    ∃ last, (run hash now es).lastHeartbeat w = some last ∧ t ≤ last
  /-- The workers have an entry. -/
  workers : ∀ w, IsId numTablets w → (run hash now es).lastHeartbeat w ≠ none

theorem recorded_run (h : Clocked now es) : Recorded hash now es := by
  induction es using List.reverseRecOn with
  | nil =>
    refine ⟨fun w last hlast => Or.inr ?_, by simp, fun w hw => by simp [run, start, hw]⟩
    rw [run, List.foldl_nil, start] at hlast
    dsimp only at hlast
    split_ifs at hlast with hw
    exact ⟨hw, (Option.some.inj hlast).symm⟩
  | append_singleton es e ih =>
    have hrec := ih h.init
    by_cases hbeat : ∃ v t, e = .heartbeat v t
    · obtain ⟨v, t, rfl⟩ := hbeat
      have hrun : (run hash now (es ++ [.heartbeat v t])).lastHeartbeat =
          Function.update (run hash now es).lastHeartbeat v (some t) := by
        rw [run_concat]
        rfl
      obtain ⟨-, hle⟩ := h.le rfl
      refine ⟨fun w last hlast => ?_, fun w t' hmem => ?_, fun w hw => ?_⟩
      · rw [hrun] at hlast
        rcases eq_or_ne w v with rfl | hne
        · rw [Function.update_self] at hlast
          obtain rfl := Option.some.inj hlast
          exact Or.inl (by simp)
        · rw [Function.update_of_ne hne] at hlast
          exact (hrec.sound w last hlast).imp_left (List.mem_append_left _)
      · rw [hrun]
        rcases eq_or_ne w v with rfl | hne
        · refine ⟨t, Function.update_self _ _ _, ?_⟩
          rcases List.mem_append.mp hmem with hmem | hmem
          · exact hle w t' hmem
          · exact le_of_eq (by simpa using hmem)
        · rw [Function.update_of_ne hne]
          refine hrec.latest w t' ?_
          simpa [hne] using hmem
      · rw [hrun]
        rcases eq_or_ne w v with rfl | hne
        · simp
        · rw [Function.update_of_ne hne]
          exact hrec.workers w hw
    · have hrun : (run hash now (es ++ [e])).lastHeartbeat = (run hash now es).lastHeartbeat := by
        rw [run_concat]
        exact lastHeartbeat_step fun w t heq => hbeat ⟨w, t, heq⟩
      refine ⟨fun w last hlast => ?_, fun w t hmem => ?_, fun w hw => ?_⟩
      · rw [hrun] at hlast
        exact (hrec.sound w last hlast).imp_left (List.mem_append_left _)
      · rw [hrun]
        rcases List.mem_append.mp hmem with hmem | hmem
        · exact hrec.latest w t hmem
        · exact absurd ⟨w, t, (List.mem_singleton.mp hmem).symm⟩ hbeat
      · rw [hrun]
        exact hrec.workers w hw

/-- A worker that is taken for alive has been heard from. -/
theorem exists_of_believed (h : believed es w = true) : ∃ t, Event.heartbeat w t ∈ es := by
  induction es using List.reverseRecOn with
  | nil => simp [believed, lastTick] at h
  | append_singleton es e ih =>
    cases htick : e.isTick with
    | false =>
      rw [believed_concat htick] at h
      obtain ⟨t, ht⟩ := ih h
      exact ⟨t, List.mem_append_left _ ht⟩
    | true =>
      obtain ⟨now, rfl⟩ : ∃ now, e = .monitorTick now := by
        cases e <;> simp [Event.isTick] at htick
        exact ⟨_, rfl⟩
      rw [believed_concat_tick] at h
      obtain ⟨t, ht, -⟩ := heardFrom_iff.mp h
      exact ⟨t, List.mem_append_left _ ht⟩

/-- A round of the monitor finds the workers it has heard from. -/
theorem heardFrom_of_recorded (h : Recorded hash now es) {t last : ℤ} (hle : now ≤ t)
    (hlast : (run hash now es).lastHeartbeat w = some last) :
    (if (t - last) / second > 3 then false else true) = heardFrom es t w := by
  have hsecond : (t - last) / second > 3 ↔ last + 4 * second ≤ t := by
    rw [second]
    omega
  rcases hheard : heardFrom es t w with _ | _
  · rw [if_pos]
    rw [hsecond]
    by_contra hlt
    rcases h.sound w last hlast with hmem | ⟨-, rfl⟩
    · have hyes := heardFrom_iff.mpr ⟨last, hmem, not_le.mp hlt⟩
      rw [hheard] at hyes
      exact absurd hyes (by simp)
    · rw [second] at hlt
      omega
  · rw [if_neg]
    rw [hsecond]
    obtain ⟨t', hmem, hlt⟩ := heardFrom_iff.mp hheard
    obtain ⟨last', hlast', hle'⟩ := h.latest w t' hmem
    obtain rfl := Option.some.inj (hlast.symm.trans hlast')
    omega

/-- Only a round of the monitor changes which workers count as alive. -/
theorem counted_step (h : e.isTick = false) : (step hash r e).counted = r.counted := by
  cases e with
  | heartbeat v t => rfl
  | monitorTick t => simp [Event.isTick] at h
  | lookup key => rw [step, lookup_fst, counted_firstRead]
  | workerLookup id =>
    rw [step, workerLookup]
    simp only [getCurrentPrimary_fst, counted_firstRead]
  | alive id => rfl

/-- **The workers that count as alive** are those that are taken for it. -/
theorem counted_run (h : Clocked now es) : (run hash now es).counted = believed es := by
  induction es using List.reverseRecOn with
  | nil => rfl
  | append_singleton es e ih =>
    have hih := ih h.init
    cases htick : e.isTick with
    | false => rw [run_concat, counted_step htick, hih, believed_concat htick]
    | true =>
      obtain ⟨t, rfl⟩ : ∃ t, e = .monitorTick t := by
        cases e <;> simp [Event.isTick] at htick
        exact ⟨_, rfl⟩
      have hrec := @recorded_run hash now es h.init
      funext w
      rw [run_concat, step, believed_concat_tick, counted, monitorTick]
      dsimp only
      rcases hlast : (run hash now es).lastHeartbeat w with _ | last
      · -- a worker without an entry has never been heard from
        have hno : ∀ t, Event.heartbeat w t ∉ es := by
          intro t' hmem
          obtain ⟨last, hsome, -⟩ := hrec.latest w t' hmem
          exact absurd (hlast.symm.trans hsome) (by simp)
        have hbelieved : believed es w = false := by
          rw [Bool.eq_false_iff]
          intro hyes
          obtain ⟨t', hmem⟩ := exists_of_believed hyes
          exact hno t' hmem
        have hheard : heardFrom es t w = false := by
          rw [Bool.eq_false_iff]
          intro hyes
          obtain ⟨t', hmem, -⟩ := heardFrom_iff.mp hyes
          exact hno t' hmem
        rw [hheard]
        exact (congrFun hih w).trans hbelieved
      · exact heardFrom_of_recorded hrec (h.le rfl).1 hlast

/-- **What the master node answers** after a run: as if it knew who was heard from
before the last round of the monitor. -/
theorem lookup_run (h : Clocked now es) (key : Bytes) (id : ℕ) :
    ((run hash now es).lookup hash key).2 =
        (match (candidateIds numTablets (tabletOf hash key)).find? (believed es) with
        | none => .error ⟨.unavailable, ascii "All workers are down"⟩
        | some w => .ok (address w)) ∧
      ((run hash now es).workerLookup id).2 =
        [id, prev1 numTablets id, prev2 numTablets id].map fun t =>
          (((candidateIds numTablets t).find? (believed es)).map address).getD allDead := by
  constructor
  · rw [lookup_snd, counted_run h, MasterNode.lookup_eq]
    rfl
  · rw [workerLookup_snd, counted_run h, PennCloud.workerLookup]
    simp only [getCurrentPrimary_eq]
    rfl

/-- A heartbeat of a worker of the six, one of a worker that is none of them, and a
round of the monitor three seconds later. -/
def twoBeats : List Event := [.heartbeat 2 0, .heartbeat 7 0, .monitorTick (3 * second)]

theorem lookup_twoBeats :
    ((run (fun _ => 0) 0 twoBeats).lookup (fun _ => 0) []).2 = .ok (address 2) ∧
      ((run (fun _ => 0) 0 twoBeats).workerLookup 3).2 = [allDead, address 2, address 2] := by
  obtain ⟨hlookup, hworker⟩ := @lookup_run (fun _ => 0) 0 twoBeats (by decide) [] 3
  exact ⟨hlookup.trans (by decide), hworker.trans (by decide)⟩

/-- The entries there are, after an event. -/
theorem isAlive_step (h : Clocked now (es ++ [e])) :
    (step hash (run hash now es) e).isAlive w ≠ none ↔
      (run hash now es).isAlive w ≠ none ∨ Enters hash es w e := by
  have hcounted := @counted_run hash now es h.init
  have hread : ∀ (r : Registry) ws, (r.firstRead ws).1.isAlive w ≠ none ↔
      r.isAlive w ≠ none ∨ w ∈ upTo r.counted ws := by
    intro r ws
    rw [isAlive_firstRead]
    split_ifs with hw
    · simp [hw]
    · simp [hw]
  cases e with
  | heartbeat v t => simp [step, heartbeat, Enters, asked]
  | monitorTick t =>
    have hrec := @recorded_run hash now es h.init
    rw [step, monitorTick, Enters]
    dsimp only
    rcases hlast : (run hash now es).lastHeartbeat w with _ | last
    · have hno : ¬(IsId numTablets w ∨ ∃ t, Event.heartbeat w t ∈ es) := by
        rintro (hid | ⟨t', hmem⟩)
        · exact hrec.workers w hid hlast
        · obtain ⟨last, hsome, -⟩ := hrec.latest w t' hmem
          exact absurd (hlast.symm.trans hsome) (by simp)
      simp [hno]
    · have hyes : IsId numTablets w ∨ ∃ t, Event.heartbeat w t ∈ es := by
        rcases hrec.sound w last hlast with hmem | ⟨hid, -⟩
        · exact Or.inr ⟨last, hmem⟩
        · exact Or.inl hid
      simp [hyes]
  | lookup key =>
    rw [step, lookup_fst, hread, hcounted]
    rfl
  | workerLookup id =>
    change _ ↔ _ ∨ w ∈ asked hash es (.workerLookup id)
    rw [step, workerLookup, asked]
    simp only [getCurrentPrimary_fst, hread, counted_firstRead, hcounted, List.mem_append,
      or_assoc, prev1, prev2]
  | alive id => simp [step, Enters, asked]

/-- **Whom the master node knows** after a run: `Alive` answers for exactly the
workers that a round of the monitor or a question has made an entry for. -/
theorem alive_run (h : Clocked now es) (w : ℕ) :
    (Known hash es w → (run hash now es).alive w = .ok (believed es w)) ∧
      (¬Known hash es w → (run hash now es).alive w =
        .error ⟨.invalidArgument, ascii "Only workers 1-6 exist."⟩) := by
  have hknown : (run hash now es).isAlive w ≠ none ↔ Known hash es w := by
    induction es using List.reverseRecOn with
    | nil =>
      constructor
      · intro hne
        exact absurd rfl hne
      · rintro ⟨before, e, hpre, -⟩
        simp at hpre
    | append_singleton es e ih =>
      rw [run_concat, isAlive_step h, ih h.init, known_concat]
  have hcounted := congrFun (@counted_run hash now es h) w
  rw [counted] at hcounted
  rw [alive]
  constructor
  · intro hk
    obtain ⟨b, hb⟩ := Option.ne_none_iff_exists'.mp (hknown.mpr hk)
    rw [hb] at hcounted ⊢
    exact congrArg Except.ok hcounted
  · intro hk
    have hnone : (run hash now es).isAlive w = none := by
      by_contra hne
      exact hk (hknown.mp hne)
    rw [hnone]

theorem alive_twoBeats : (run (fun _ => 0) 0 twoBeats).alive 7 = .ok true ∧
    (run (fun _ => 0) 0 twoBeats).alive 8 =
      .error ⟨.invalidArgument, ascii "Only workers 1-6 exist."⟩ := by
  have hseven : Known (fun _ => 0) twoBeats 7 :=
    ⟨[.heartbeat 2 0, .heartbeat 7 0], .monitorTick (3 * second), List.prefix_rfl,
      Or.inr ⟨0, by decide⟩⟩
  have height : ¬Known (fun _ => 0) twoBeats 8 := by
    have hsplit : twoBeats = [] ++ [.heartbeat 2 0] ++ [.heartbeat 7 0] ++
        [.monitorTick (3 * second)] := rfl
    rw [hsplit, known_concat, known_concat, known_concat]
    rintro (((⟨before, e, hpre, -⟩ | henters) | henters) | henters | ⟨t, hmem⟩)
    · simp at hpre
    · exact absurd henters List.not_mem_nil
    · exact absurd henters List.not_mem_nil
    · exact absurd henters (by decide)
    · simp at hmem
  exact ⟨((@alive_run (fun _ => 0) 0 twoBeats (by decide) 7).1 hseven).trans (by decide),
    (@alive_run (fun _ => 0) 0 twoBeats (by decide) 8).2 height⟩

end Registry

end PennCloud
