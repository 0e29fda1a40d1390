import PennCloud.Backend.Worker
import PennCloud.Lib.Runs
import Mathlib.Data.Fin.VecNotation

/-!
# What recovery rebuilds

`PennCloud.Worker.recoverAllTablets` goes through the answers of the coordinator
one by one. Since the rounds work on three different slots, the result can be
said at once, slot by slot (`PennCloud.Worker.recoverAllTablets_eq_some`): every
slot gets the tablet rebuilt from its own files or copied from another worker
(`PennCloud.Worker.recoverSlot`), and the process survives when all three are
there. Everything said later about restarts goes through this one statement.

A tablet copied from a worker that is up is that worker's tablet
(`PennCloud.Worker.copied_cells`, `PennCloud.Worker.copied_exact`), provided it
fits the format and has no row without columns. No worker ever has such a row:
`PennCloud.Worker.transfer_exact` says so for every history of a worker, whatever
it is sent.
-/

namespace PennCloud

open Wire KeyValue

namespace Worker

/-! ### The answers of the coordinator -/

/-- What the coordinator can answer for a tablet. -/
def IsHost (h : Bytes) : Prop := h = allDead ∨ ∃ i ∈ workerIds, h = address i

theorem IsHost.wellFormed {h : Bytes} (hh : IsHost h) :
    (59 : UInt8) ∉ h ∧ h ≠ [] ∧ ∀ rest, (h ++ rest).take 3 ≠ ascii "ERR" := by
  have hdead : (59 : UInt8) ∉ allDead ∧ allDead ≠ [] ∧ 3 ≤ allDead.length ∧
      allDead.take 3 ≠ ascii "ERR" := by decide
  have haddr : ∀ i ∈ workerIds, (59 : UInt8) ∉ address i ∧ address i ≠ [] ∧
      3 ≤ (address i).length ∧ (address i).take 3 ≠ ascii "ERR" := by decide
  have key : ∀ {g : Bytes}, (59 : UInt8) ∉ g ∧ g ≠ [] ∧ 3 ≤ g.length ∧ g.take 3 ≠ ascii "ERR" →
      (59 : UInt8) ∉ g ∧ g ≠ [] ∧ ∀ rest, (g ++ rest).take 3 ≠ ascii "ERR" := by
    rintro g ⟨h1, h2, h3, h4⟩
    refine ⟨h1, h2, fun rest => ?_⟩
    rw [List.take_append_of_le_length h3]
    exact h4
  rcases hh with rfl | ⟨i, hi, rfl⟩
  · exact key hdead
  · exact key (haddr i hi)

theorem isHost_getCurrentPrimary (isAlive : ℕ → Bool) {t : ℕ} (ht : IsId numTablets t) :
    IsHost (getCurrentPrimary isAlive t) := by
  rcases getCurrentPrimary_cases isAlive ht with ⟨h, -⟩ | ⟨i, hi, h, -⟩
  · exact Or.inl h
  · exact Or.inr ⟨i, hi, h⟩

/-- Three answers, as the worker receives them. -/
def answers (host : Fin 3 → Bytes) : Bytes := workerLookupString (List.ofFn host)

theorem getlines_answers {host : Fin 3 → Bytes} (h : ∀ i, IsHost (host i)) :
    getlines 59 (answers host) = [host 0, host 1, host 2] := by
  have hall : ∀ p ∈ [host 0, host 1, host 2], IsHost p := by
    intro p hp
    simp only [List.mem_cons, List.not_mem_nil, or_false] at hp
    rcases hp with rfl | rfl | rfl
    · exact h 0
    · exact h 1
    · exact h 2
  exact getlines_intercalate (fun p hp => (hall p hp).wellFormed.1)
    (fun p hp => (hall p hp).wellFormed.2.1) (List.cons_ne_nil _ _)

theorem answers_not_err {host : Fin 3 → Bytes} (h : ∀ i, IsHost (host i)) :
    (answers host).take 3 ≠ ascii "ERR" := by
  have happ : answers host = host 0 ++ (ascii ";" ++ host 1 ++ (ascii ";" ++ host 2)) := by
    simp [answers, workerLookupString, List.intercalate, List.intersperse]
  rw [happ]
  exact (h 0).wellFormed.2.2 _

/-- The tablets of a worker, in the order in which they are recovered. -/
theorem recoverPlan_answers {w : ℕ} (hw : IsId numTablets w) (host : Fin 3 → Bytes) :
    recoverPlan [host 0, host 1, host 2] w = [(host 0, storedTablet numTablets w 0),
      (host 1, storedTablet numTablets w 1), (host 2, storedTablet numTablets w 2)] := by
  rw [recoverPlan, recoverPlan, recoverPlan, recoverPlan, ← prev1, ← prev1,
    prev1_prev1 (by decide) hw]
  rfl

/-! ### Slot by slot -/

/-- The tablet a slot of worker `w` gets when the coordinator answers `host`. -/
def recoverSlot (w : ℕ) (copy : ℕ → ℕ → Bytes) (host : Bytes) (t : ℕ) (s : Slot) :
    Option Tablet :=
  if host = allDead then s.recoverFromLocal
  else (workerClientPtrs w host).map fun c => (deserializeTablet ∅ (copy c t)).2

/-- Of the slot, only the files matter. -/
theorem recoverSlot_congr {w : ℕ} {copy : ℕ → ℕ → Bytes} {host : Bytes} {t : ℕ} {s s' : Slot}
    (hlog : s.log = s'.log) (hck : s.checkpoint = s'.checkpoint) :
    recoverSlot w copy host t s = recoverSlot w copy host t s' := by
  rw [recoverSlot, recoverSlot, Slot.recoverFromLocal_congr hlog hck]

/-- The worker with other tablets in memory. -/
def setTablets (w : Worker) (T : Fin 3 → Tablet) : Worker :=
  { w with slots := fun i => { w.slots i with tablet := T i } }

/-- **What a round of the recovery does**: the tablet recovered for a slot is put
there. -/
theorem recoverTablet_cases {id : ℕ} {copy : ℕ → ℕ → Bytes} {w w' : Worker} {p : Bytes × ℕ}
    (h : recoverTablet id copy w p = some w') :
    ∃ i kvs, getTabletNumberOnThisWorker numTablets id p.2 = some i ∧
      recoverSlot id copy p.1 p.2 (w.slots i) = some kvs ∧ w' = w.setTablet i kvs := by
  rw [recoverTablet] at h
  split at h
  · exact absurd h (by simp)
  · rename_i i hi
    refine ⟨i, ?_⟩
    split_ifs at h with hdead
    · obtain ⟨kvs, hkvs, rfl⟩ := Option.map_eq_some_iff.mp h
      exact ⟨kvs, hi, by rw [recoverSlot, if_pos hdead, hkvs], rfl⟩
    · split at h
      · exact absurd h (by simp)
      · rename_i c hc
        exact ⟨_, hi, by rw [recoverSlot, if_neg hdead, hc]; rfl, (Option.some.inj h).symm⟩

theorem recoverTablet_eq {id : ℕ} (hid : IsId numTablets id) (copy : ℕ → ℕ → Bytes) (w : Worker)
    (host : Bytes) (i : Fin 3) :
    recoverTablet id copy w (host, storedTablet numTablets id i) =
      (recoverSlot id copy host (storedTablet numTablets id i) (w.slots i)).map
        (w.setTablet i) := by
  have hi := getTabletNumberOnThisWorker_storedTablet (by decide) hid i
  simp only [recoverTablet, recoverSlot, hi]
  split_ifs with hdead
  · rfl
  · cases workerClientPtrs id host <;> rfl

/-- The three rounds of the recovery, each on its own slot. -/
theorem recoverAllTablets_rounds {id : ℕ} (hid : IsId numTablets id) (copy : ℕ → ℕ → Bytes)
    {host : Fin 3 → Bytes} (hhost : ∀ i, IsHost (host i)) (w : Worker) :
    recoverAllTablets id copy (answers host) w =
      (recoverTablet id copy w (host 0, storedTablet numTablets id 0)).bind fun w₁ =>
        (recoverTablet id copy w₁ (host 1, storedTablet numTablets id 1)).bind fun w₂ =>
          recoverTablet id copy w₂ (host 2, storedTablet numTablets id 2) := by
  rw [recoverAllTablets, if_neg (answers_not_err hhost), getlines_answers hhost,
    recoverPlan_answers hid]
  simp only [List.foldlM_cons, List.foldlM_nil, Option.bind_eq_bind, Option.pure_def,
    Option.bind_fun_some]

theorem setTablet_three (w : Worker) (T : Fin 3 → Tablet) :
    ((w.setTablet 0 (T 0)).setTablet 1 (T 1)).setTablet 2 (T 2) = w.setTablets T := by
  have hslots : (((w.setTablet 0 (T 0)).setTablet 1 (T 1)).setTablet 2 (T 2)).slots =
      (w.setTablets T).slots := by
    funext i
    match i with
    | 0 => simp [setTablet, setSlot, setTablets]
    | 1 => simp [setTablet, setSlot, setTablets]
    | 2 => simp [setTablet, setSlot, setTablets]
  exact congrArg (fun slots => (⟨slots, w.running, w.adminWorkerUp⟩ : Worker)) hslots

/-- **What recovery does**: the process survives exactly when each of the three
tablets can be rebuilt or copied, and has these tablets then. -/
theorem recoverAllTablets_eq_some {id : ℕ} (hid : IsId numTablets id) (copy : ℕ → ℕ → Bytes)
    {host : Fin 3 → Bytes} (hhost : ∀ i, IsHost (host i)) (w w' : Worker) :
    recoverAllTablets id copy (answers host) w = some w' ↔
      ∃ T : Fin 3 → Tablet, (∀ i, recoverSlot id copy (host i) (storedTablet numTablets id i)
        (w.slots i) = some (T i)) ∧ w' = w.setTablets T := by
  rw [recoverAllTablets_rounds hid copy hhost]
  simp only [recoverTablet_eq hid, Option.bind_eq_some_iff, Option.map_eq_some_iff]
  constructor
  · rintro ⟨w₁, ⟨T₀, h₀, rfl⟩, w₂, ⟨T₁, h₁, rfl⟩, T₂, h₂, rfl⟩
    refine ⟨![T₀, T₁, T₂], fun i => ?_, setTablet_three w ![T₀, T₁, T₂]⟩
    -- the earlier rounds left the slot as it was
    match i with
    | 0 => exact h₀
    | 1 =>
      rw [setTablet, slots_setSlot_of_ne w (by decide)] at h₁
      exact h₁
    | 2 =>
      rw [setTablet, slots_setSlot_of_ne _ (by decide), setTablet,
        slots_setSlot_of_ne w (by decide)] at h₂
      exact h₂
  · rintro ⟨T, hT, rfl⟩
    refine ⟨_, ⟨T 0, hT 0, rfl⟩, _, ⟨T 1, ?_, rfl⟩, T 2, ?_, setTablet_three w T⟩
    · rw [setTablet, slots_setSlot_of_ne w (by decide)]
      exact hT 1
    · rw [setTablet, slots_setSlot_of_ne _ (by decide), setTablet,
        slots_setSlot_of_ne w (by decide)]
      exact hT 2

/-- Whatever it recovers from, recovery makes no row without columns. -/
theorem noEmptyRow_recoverSlot {id : ℕ} {copy : ℕ → ℕ → Bytes} {host : Bytes} {t : ℕ} {s : Slot}
    {tablet : Tablet} (h : recoverSlot id copy host t s = some tablet) : tablet.NoEmptyRow := by
  rw [recoverSlot] at h
  split_ifs at h with hdead
  · exact Slot.noEmptyRow_recoverFromLocal h
  · obtain ⟨c, -, rfl⟩ := Option.map_eq_some_iff.mp h
    exact noEmptyRow_deserializeTablet Tablet.noEmptyRow_empty _

/-! ### Copies -/

/-- A worker has a client for every other worker. -/
theorem workerClientPtrs_address : ∀ id ∈ workerIds, ∀ c ∈ workerIds, c ≠ id →
    workerClientPtrs id (address c) = some c := by
  decide

/-- A worker has no client for itself. -/
theorem workerClientPtrs_self : ∀ id ∈ workerIds, workerClientPtrs id (address id) = none := by
  decide

theorem ne_allDead_of_workerClientPtrs {id c : ℕ} {host : Bytes}
    (h : workerClientPtrs id host = some c) : host ≠ allDead := by
  have hc : c ∈ workerIds := List.mem_of_find?_eq_some h
  obtain ⟨-, rfl⟩ : c ≠ id ∧ address c = host := by
    rw [workerClientPtrs] at h
    simpa using List.find?_some h
  exact address_ne_allDead c hc

theorem recoverSlot_address {id c : ℕ} (hid : id ∈ workerIds) (hc : c ∈ workerIds) (hne : c ≠ id)
    (copy : ℕ → ℕ → Bytes) (t : ℕ) (s : Slot) :
    recoverSlot id copy (address c) t s = some (deserializeTablet ∅ (copy c t)).2 := by
  rw [recoverSlot, if_neg (address_ne_allDead c hc), workerClientPtrs_address id hid c hc hne]
  rfl

/-- What the client of worker `c` returns for tablet `t`, the workers being `σ`. -/
def copyFrom (ord : ℕ → IterOrder) (σ : ℕ → Worker) (c t : ℕ) : Bytes :=
  copyTabletClient (copyTablet c (ord c) t (σ c))

/-- The client puts the chunks back together. -/
theorem copyTabletClient_chunks (data : Bytes) :
    copyTabletClient (chunks chunkSize data, Status.OK) = data := by
  rw [copyTabletClient, Status.isOk_OK, if_pos rfl]
  exact chunks_flatten (by decide) data

/-- What the client receives from a worker that is up is the serialized tablet:
the chunks are put back together. -/
theorem copyTabletClient_of_isUp {w : Worker} (h : w.isUp = true) {id t : ℕ} {i : Fin 3}
    (hi : getTabletNumberOnThisWorker numTablets id t = some i) (ord : IterOrder) :
    copyTabletClient (copyTablet id ord t w) = serializeTablet ord (w.slots i).tablet := by
  obtain ⟨hr, ha⟩ : w.running = true ∧ w.adminWorkerUp = true := by simpa [isUp] using h
  have hreply : copyTablet id ord t w =
      (chunks chunkSize (serializeTablet ord (w.slots i).tablet), Status.OK) := by
    simp only [copyTablet, hr, ha, hi, Bool.not_true, Bool.false_eq_true, if_false]
  rw [hreply, copyTabletClient_chunks]

/-- **A copy has the cells of the tablet copied.** -/
theorem copied_cells {w : Worker} (h : w.isUp = true) {id t : ℕ} {i : Fin 3}
    (hi : getTabletNumberOnThisWorker numTablets id t = some i) (ord : IterOrder)
    (hfits : (w.slots i).tablet.Fits) :
    (deserializeTablet ∅ (copyTabletClient (copyTablet id ord t w))).2.cells =
      (w.slots i).tablet.cells := by
  rw [copyTabletClient_of_isUp h hi]
  exact (deserializeTablet_serializeTablet ord hfits).2

/-- **A copy of a tablet without empty rows is the tablet.** -/
theorem copied_exact {w : Worker} (h : w.isUp = true) {id t : ℕ} {i : Fin 3}
    (hi : getTabletNumberOnThisWorker numTablets id t = some i) (ord : IterOrder)
    (hfits : (w.slots i).tablet.Fits) (hne : (w.slots i).tablet.NoEmptyRow) :
    deserializeTablet ∅ (copyTabletClient (copyTablet id ord t w)) =
      (true, (w.slots i).tablet) := by
  rw [copyTabletClient_of_isUp h hi]
  exact deserializeTablet_exact ord hfits hne

/-! ### The history of a worker -/

/-- What can happen to a worker. -/
inductive Event where
  /-- A request is handled. -/
  | request (r : Request) (env : Env)
  /-- A command of the admin console is handled; a `RESTART` is given the answer
  `res` of the coordinator and the replies `copy` of the other workers. -/
  | adminConsole (copy : ℕ → ℕ → Bytes) (res password command : Bytes)
  /-- The process ends and is started again. -/
  | processRestart (copy : ℕ → ℕ → Bytes) (res : Bytes)

/-- One event in the life of worker `id`. -/
def step (hash : Bytes → UInt64) (id : ℕ) (w : Worker) : Event → Worker
  | .request r env => w.serve hash id env r
  | .adminConsole copy res password command =>
    (w.adminConsole id copy res password command).1
  | .processRestart copy res => w.main id copy res

/-- A worker that has just been set up: empty tablets, empty logs, no checkpoint
files. -/
def empty : Worker where
  slots := fun _ => ⟨∅, [], none, 0⟩
  running := true
  adminWorkerUp := true

/-- No tablet of the worker has a row without columns. -/
def NoEmptyRow (w : Worker) : Prop := ∀ i, (w.slots i).tablet.NoEmptyRow

section History

variable {hash : Bytes → UInt64} {id : ℕ} {w w' : Worker}

theorem noEmptyRow_setTablet (h : w.NoEmptyRow) {i : Fin 3} {kvs : Tablet} (hk : kvs.NoEmptyRow) :
    (w.setTablet i kvs).NoEmptyRow := by
  intro j
  rcases eq_or_ne j i with rfl | hne
  · rw [setTablet, slots_setSlot]
    exact hk
  · rw [setTablet, slots_setSlot_of_ne _ hne]
    exact h j

theorem noEmptyRow_handle (h : w.NoEmptyRow) (env : Env) (u : Update) :
    (handle hash id env u w).1.NoEmptyRow := by
  rcases handle_cases hash id env u w with ⟨he, -⟩ | ⟨i, -, -, he⟩
  · rw [he]
    exact h
  intro j
  rcases eq_or_ne j i with rfl | hne
  · rw [he, slots_setSlot]
    rcases hk : u.onTablet (w.slots j).tablet with st | kvs
    · rw [Slot.update_error hk]
      exact h j
    · rw [Slot.tablet_update hk]
      exact Update.noEmptyRow_onTablet (h j) hk
  · rw [he, slots_setSlot_of_ne _ hne]
    exact h j

/-- **Recovery makes no row without columns**, whatever the coordinator and the
other workers have sent. -/
theorem noEmptyRow_recoverAllTablets {copy : ℕ → ℕ → Bytes} {res : Bytes} (h : w.NoEmptyRow)
    (hrec : recoverAllTablets id copy res w = some w') : w'.NoEmptyRow := by
  rw [recoverAllTablets] at hrec
  split_ifs at hrec
  -- the rounds one after the other, over any list of them
  generalize recoverPlan (getlines 59 res) id = plan at hrec
  induction plan generalizing w with
  | nil =>
    obtain rfl : w = w' := Option.some.inj hrec
    exact h
  | cons p plan ih =>
    rw [List.foldlM_cons] at hrec
    obtain ⟨w₁, h₁, hrest⟩ := Option.bind_eq_some_iff.mp hrec
    obtain ⟨i, kvs, -, hkvs, rfl⟩ := recoverTablet_cases h₁
    exact ih (noEmptyRow_setTablet h (noEmptyRow_recoverSlot hkvs)) hrest

theorem noEmptyRow_adminConsole (h : w.NoEmptyRow) (copy : ℕ → ℕ → Bytes)
    (res password command : Bytes) :
    (w.adminConsole id copy res password command).1.NoEmptyRow := by
  rw [adminConsole]
  split_ifs
  · exact h
  · exact h
  · exact h
  · exact h
  · split
    · exact h
    · rename_i hrec
      have hnew := noEmptyRow_recoverAllTablets h hrec
      exact fun i => hnew i
  · exact h

theorem noEmptyRow_main (copy : ℕ → ℕ → Bytes) (res : Bytes) :
    (w.main id copy res).NoEmptyRow := by
  have hfresh : w.fresh.NoEmptyRow := fun _ => Tablet.noEmptyRow_empty
  rw [main]
  split
  · exact hfresh
  · rename_i hrec
    exact noEmptyRow_recoverAllTablets hfresh hrec

theorem noEmptyRow_step (h : w.NoEmptyRow) (e : Event) : (step hash id w e).NoEmptyRow := by
  cases e with
  | request r env =>
    cases r with
    | get row column => exact h
    | update u => exact noEmptyRow_handle h env u
    | replicate u =>
      rw [step, serve, replicate_eq]
      exact noEmptyRow_handle h env u
  | adminConsole copy res password command => exact noEmptyRow_adminConsole h copy res _ _
  | processRestart copy res => exact noEmptyRow_main copy res

/-- **A transfer is exact.** In every state a worker reaches through requests,
copies of tablets and recoveries, no tablet has a row without columns; and a
tablet within the bounds of the format, cut into chunks in whatever order its
maps are listed, put together by the client and read into an empty table, is
that tablet again. -/
theorem transfer_exact (h : Runs.Reaches (step hash id) (fun _ _ => True) empty w) (i : Fin 3) :
    (w.slots i).tablet.NoEmptyRow ∧ ((w.slots i).tablet.Fits → ∀ ord : IterOrder,
      deserializeTablet ∅ (copyTabletClient
        (chunks chunkSize (serializeTablet ord (w.slots i).tablet), Status.OK)) =
          (true, (w.slots i).tablet)) := by
  have hne : w.NoEmptyRow :=
    h.invariant (fun _ => Tablet.noEmptyRow_empty) fun _ e hs _ => noEmptyRow_step hs e
  refine ⟨hne i, fun hfits ord => ?_⟩
  rw [copyTabletClient_chunks]
  exact deserializeTablet_exact ord hfits (hne i)

end History

/-- A tablet with one cell is transferred, for instance. -/
theorem transfer_exact_put :
    let w := step (fun _ => 0) 1 empty (.request (.update (.put [1] [2] [3])) ⟨default, true⟩)
    deserializeTablet ∅ (copyTabletClient
        (chunks chunkSize (serializeTablet default (w.slots 0).tablet), Status.OK)) =
      (true, (w.slots 0).tablet) := by
  refine (transfer_exact ((Runs.Reaches.refl empty).tail trivial) 0).2 ?_ default
  exact Tablet.fits_put_empty (by decide) (by decide) (by decide)

end Worker

end PennCloud
