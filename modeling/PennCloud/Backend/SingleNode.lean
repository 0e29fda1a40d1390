import PennCloud.Backend.Convergence
import PennCloud.Lib.Linearizability

/-!
# One node instead of six

`backend/kvs_server.h` is the key-value store as one node: one map, four handlers,
no tablets, no replicas and no log. The six workers are meant to be the same thing
to a client, and while all of them are up they are.

A client's call is in progress from the moment it is made until it returns. In
between it is served by the worker the coordinator names, and a write then goes to
the replicas, call by call; all of that interleaves with the other calls in any
order (`PennCloud.Clients`). The calls of replicas may overtake each other, and then
the copies differ – but only the worker of the same number as the tablet is asked,
and no replica call is ever for that worker's own tablet. What a worker does for one
call, from the test of a `CPut` to its record in the log, is one step, as if each
process served one call at a time.

* `PennCloud.Clients.linearizable_of_reaches` – the calls of the clients with their
  answers are linearizable, with the single node as the sequential object.
-/

namespace PennCloud

open Wire KeyValue Worker Linearizability

/-! ### The single node -/

/-- A call of a client of the key-value store. -/
inductive ClientCall where
  /-- `Get`. -/
  | get (row column : Bytes)
  /-- `Put`, `CPut` or `Delete`. -/
  | update (u : Update)

/-- The row a call is about. -/
def ClientCall.row : ClientCall → Bytes
  | .get row _ => row
  | .update u => u.row

namespace SingleNode

/-- `Status::CANCELLED`. -/
def cancelled : Status := ⟨.cancelled, []⟩

/-- `Get`. -/
def get (kvs : Tablet) (row column : Bytes) : Except Status Bytes :=
  match kvs.lookup row with
  | none => .error cancelled
  | some columns =>
    match columns.lookup column with
    | none => .error cancelled
    | some value => .ok value

/-- `Put`. -/
def put (kvs : Tablet) (row column value : Bytes) : Tablet × Status :=
  (kvs.put row column value, Status.OK)

/-- `CPut`. -/
def cput (kvs : Tablet) (row column currentValue newValue : Bytes) : Tablet × Status :=
  match kvs.lookup row with
  | none => (kvs, cancelled)
  | some columns =>
    match columns.lookup column with
    | none => (kvs, cancelled)
    | some value =>
      if value = currentValue then
        (kvs.insert row (columns.insert column newValue), Status.OK)
      else (kvs, cancelled)

/-- `Delete`. -/
def delete (kvs : Tablet) (row column : Bytes) : Tablet × Status :=
  (kvs.delete row column, Status.OK)

/-- The handler of an update. -/
def update (kvs : Tablet) : Update → Tablet × Status
  | .put row column value => put kvs row column value
  | .cput row column cur new => cput kvs row column cur new
  | .delete row column => delete kvs row column

/-- What a client learns from a status: that the call went well, or not. -/
def outcome (st : Status) : Option Bytes := if st.isOk then some [] else none

/-- The single node as an object with an answer for every call: the value of a `Get`,
nothing for a write, and none when the status is not `OK`. -/
def serve (kvs : Tablet) : ClientCall → Tablet × Option Bytes
  | .get row column => (kvs, (get kvs row column).toOption)
  | .update u => ((update kvs u).1, outcome (update kvs u).2)

theorem get_toOption (kvs : Tablet) (row column : Bytes) :
    (get kvs row column).toOption = kvs.cells (row, column) := by
  rw [get, Tablet.cells]
  rcases hl : kvs.lookup row with _ | columns
  · rfl
  · rcases hv : columns.lookup column with _ | value
    · simp [hv, Except.toOption]
    · simp [hv, Except.toOption]

/-- **The single node and a tablet of a worker** do the same with an update, and
refuse the same ones. -/
theorem update_of_onTablet {kvs kvs' : Tablet} {u : Update} (h : u.onTablet kvs = .ok kvs') :
    update kvs u = (kvs', Status.OK) := by
  cases u with
  | put row column value => exact congrArg (·, Status.OK) (Except.ok.inj h)
  | cput row column cur new =>
    rw [Update.onTablet, Tablet.cput] at h
    rw [update, cput]
    rcases hl : kvs.lookup row with _ | columns
    · simp [hl] at h
    · rcases hv : columns.lookup column with _ | value
      · simp [hl, hv] at h
      · by_cases he : value = cur
        · simp only [hl, hv, if_pos he, Except.ok.injEq] at h
          simp only [hv, if_pos he, h]
        · simp [hl, hv, he] at h
  | delete row column => exact congrArg (·, Status.OK) (Except.ok.inj h)

theorem update_of_error {kvs : Tablet} {u : Update} {st : Status}
    (h : u.onTablet kvs = .error st) : update kvs u = (kvs, cancelled) := by
  cases u with
  | put row column value => exact absurd h (by simp [Update.onTablet])
  | cput row column cur new =>
    rw [Update.onTablet, Tablet.cput] at h
    rw [update, cput]
    rcases hl : kvs.lookup row with _ | columns
    · rfl
    · rcases hv : columns.lookup column with _ | value
      · simp only [hv]
      · by_cases he : value = cur
        · simp [hl, hv, he] at h
        · simp only [hv, if_neg he]
  | delete row column => exact absurd h (by simp [Update.onTablet])

end SingleNode

/-! ### The workers as one tablet -/

/-- **A row is determined by its cells**, where no row is empty. -/
theorem Tablet.lookup_congr {kvs kvs' : Tablet} (h : kvs.NoEmptyRow) (h' : kvs'.NoEmptyRow)
    {row : Bytes} (hcells : ∀ column, kvs.cells (row, column) = kvs'.cells (row, column)) :
    kvs.lookup row = kvs'.lookup row := by
  -- a row that is there has a column, which the other tablet then has in the same row
  have hnone : ∀ {a b : Tablet}, a.NoEmptyRow →
      (∀ column, a.cells (row, column) = b.cells (row, column)) → b.lookup row = none →
      a.lookup row = none := by
    intro a b ha hab hb
    by_contra hne
    obtain ⟨columns, hl⟩ := Option.ne_none_iff_exists'.mp hne
    refine ha row columns hl (Finmap.ext_lookup fun c => ?_)
    simpa [Tablet.cells, hl, hb] using hab c
  rcases hl : kvs.lookup row with _ | columns
  · exact (hnone h' (fun column => (hcells column).symm) hl).symm
  · rcases hl' : kvs'.lookup row with _ | columns'
    · exact absurd (hl.symm.trans (hnone h hcells hl')) (by simp)
    · refine congrArg some (Finmap.ext_lookup fun c => ?_)
      simpa [Tablet.cells, hl, hl'] using hcells c

theorem Tablet.get_toOption (kvs : Tablet) (row column : Bytes) :
    (kvs.get row column).toOption = kvs.cells (row, column) := by
  rcases Tablet.get_cells kvs row column with ⟨value, hcell, hget⟩ | ⟨hcell, st, hget, -⟩
  · rw [hcell, hget]
    rfl
  · rw [hcell, hget]
    rfl

/-- What becomes of an update depends on its row. -/
theorem Update.onTablet_congr {kvs kvs' : Tablet} {u : Update}
    (h : kvs.lookup u.row = kvs'.lookup u.row) :
    (∃ t t', u.onTablet kvs = .ok t ∧ u.onTablet kvs' = .ok t') ∨
      ∃ st, u.onTablet kvs = .error st ∧ u.onTablet kvs' = .error st := by
  cases u with
  | put row column value => exact Or.inl ⟨_, _, rfl, rfl⟩
  | delete row column => exact Or.inl ⟨_, _, rfl, rfl⟩
  | cput row column cur new =>
    have h' : kvs.lookup row = kvs'.lookup row := h
    rw [Update.onTablet, Update.onTablet, Tablet.cput, Tablet.cput, ← h']
    rcases kvs.lookup row with _ | columns
    · exact Or.inr ⟨_, rfl, rfl⟩
    · dsimp only
      rcases columns.lookup column with _ | value
      · exact Or.inr ⟨_, rfl, rfl⟩
      · dsimp only
        split_ifs
        · exact Or.inl ⟨_, _, rfl, rfl⟩
        · exact Or.inr ⟨_, rfl, rfl⟩

namespace Network

variable (hash : Bytes → UInt64)

/-- The cell of a row on the worker of the same number as its tablet. -/
def cell (n : Network) (row column : Bytes) : Option Bytes :=
  cellAt hash (tabletOf hash row) row column (n.cluster (tabletOf hash row))

/-- **The workers stand for one tablet**: the worker that is asked for a row has its cells, and
the calls in flight do not come to that worker. -/
structure StandsFor (n : Network) (kvs : Tablet) : Prop where
  /-- All workers are up. -/
  isUp : ∀ q, (n.cluster q).isUp = true
  /-- None of them keeps an empty row, -/
  noEmptyRow : ∀ q, (n.cluster q).NoEmptyRow
  /-- and neither does the tablet. -/
  single : kvs.NoEmptyRow
  /-- The calls still to be made go to replicas. -/
  targets : ∀ f ∈ n.inflight, f.targets <:+ getReplicasForReplication numTablets
    (tabletOf hash f.update.row) (tabletOf hash f.update.row)
  /-- The workers that are asked have the cells. -/
  cells : ∀ row column, n.cell hash row column = kvs.cells (row, column)

theorem standsFor_start : StandsFor hash Network.start ∅ where
  isUp := fun _ => rfl
  noEmptyRow := fun _ _ => Tablet.noEmptyRow_empty
  single := Tablet.noEmptyRow_empty
  targets := by simp [Network.start]
  cells := fun _ _ => rfl

variable {hash} {n : Network} {kvs : Tablet}

/-- The row as the worker that is asked has it. -/
theorem StandsFor.lookup_eq (h : StandsFor hash n kvs) (row : Bytes) :
    (slotAt (tabletOf hash row) (tabletOf hash row)
      (n.cluster (tabletOf hash row))).tablet.lookup row = kvs.lookup row :=
  Tablet.lookup_congr (h.noEmptyRow _ _) h.single fun column => h.cells row column

/-- **A `Get`** is answered as from the tablet, wording included. -/
theorem StandsFor.get_eq (h : StandsFor hash n kvs) (row column : Bytes) :
    Worker.get hash (tabletOf hash row) row column (n.cluster (tabletOf hash row)) =
      kvs.get row column := by
  rw [get_of_isUp (mem_candidateIds_self _) (h.isUp _), Tablet.get, Tablet.get, h.lookup_eq row]

/-- **A replica that is called** is not the worker that is asked for the tablet. -/
theorem StandsFor.deliver (h : StandsFor hash n kvs) (i : ℕ) (env : ℕ → Env) :
    StandsFor hash (n.deliver hash i env) kvs := by
  rcases n.deliver_cases hash i env with hsame | ⟨u, r, rs, hi, hdel⟩
  · rw [hsame]
    exact h
  rw [hdel]
  have hsuffix := h.targets _ (List.mem_of_getElem? hi)
  have hr : r ∈ getReplicasForReplication numTablets (tabletOf hash u.row) (tabletOf hash u.row) :=
    hsuffix.subset List.mem_cons_self
  obtain ⟨-, hself, -⟩ := Cluster.replicas_spec (isId_tabletOf hash u.row)
    (mem_candidateIds_self (tabletOf hash u.row))
  refine ⟨isUp_update_handle h.isUp _, noEmptyRow_update_handle h.noEmptyRow _, h.single, ?_, ?_⟩
  · intro f hf
    rcases List.mem_or_eq_of_mem_set hf with hmem | rfl
    · exact h.targets f hmem
    · exact (List.suffix_cons r rs).trans hsuffix
  · intro row column
    refine Eq.trans ?_ (h.cells row column)
    rw [cell, cell]
    dsimp only
    rcases eq_or_ne (tabletOf hash row) r with rfl | hne
    · have htab : tabletOf hash u.row ≠ tabletOf hash row := fun heq => hself (heq ▸ hr)
      rw [Function.update_self, cellAt, cellAt,
        slotAt_handle_of_ne (isId_tabletOf hash row) (mem_candidateIds_self _) htab]
    · rw [Function.update_of_ne hne]

/-- A request that comes in flight goes to the replicas. -/
theorem mem_inflight_issue_eq {p : ℕ} {u : Update} {env : ℕ → Env} {f : Flight}
    (h : f ∈ (n.issue hash p u env).1.inflight) : f ∈ n.inflight ∨
      f = ⟨u, getReplicasForReplication numTablets p (tabletOf hash u.row)⟩ := by
  simp only [issue] at h
  split_ifs at h
  · exact (List.mem_append.mp h).imp_right List.mem_singleton.mp
  · exact Or.inl h

/-- A write that is accepted sets its cell, and no other. -/
theorem cell_issue {t : ℕ} {u : Update} {env : ℕ → Env} {kvs : Tablet}
    (ht : t = tabletOf hash u.row) (hup : (n.cluster t).isUp = true)
    (hk : u.onTablet (slotAt t t (n.cluster t)).tablet = .ok kvs) (row column : Bytes) :
    (n.issue hash t u env).1.cell hash row column =
      if (row, column) = u.cell then u.result else n.cell hash row column := by
  subst ht
  have hself := mem_candidateIds_self (tabletOf hash u.row)
  rw [cell, cell, cluster_issue]
  split_ifs with hcell
  · obtain ⟨rfl, rfl⟩ : row = u.row ∧ column = u.column := by simpa [Update.cell] using hcell
    rw [Function.update_self, cellAt_handle rfl hself hup hk]
  · rcases eq_or_ne (tabletOf hash row) (tabletOf hash u.row) with heq | hne
    · rw [heq, Function.update_self]
      exact cellAt_handle_of_ne (heq ▸ hself) (Ne.symm hcell) _
    · rw [Function.update_of_ne hne]

/-- **A write** is accepted or refused as by the tablet, wording included, and does the same. -/
theorem StandsFor.issue (h : StandsFor hash n kvs) {t : ℕ} {u : Update}
    (ht : t = tabletOf hash u.row) {env : ℕ → Env}
    (hopens : (slotAt t t (n.cluster t)).checkpointDue = true → (env t).opens = true) :
    (∃ kvs', u.onTablet kvs = .ok kvs' ∧ (n.issue hash t u env).2.isOk = true ∧
        StandsFor hash (n.issue hash t u env).1 kvs') ∨
      ∃ st, u.onTablet kvs = .error st ∧ st.isOk = false ∧ n.issue hash t u env = (n, st) := by
  have hself : t ∈ candidateIds numTablets (tabletOf hash u.row) := ht ▸ mem_candidateIds_self t
  have hrow : (slotAt t t (n.cluster t)).tablet.lookup u.row = kvs.lookup u.row := by
    rw [ht]
    exact h.lookup_eq u.row
  have hslot := slotAt_handle hself (h.isUp t) (env t)
  rw [← ht] at hslot
  rcases Update.onTablet_congr hrow with ⟨kvs₁, kvs₂, hk, hk'⟩ | ⟨st, hk, hk'⟩
  · have hok : (handle hash t (env t) u (n.cluster t)).2.isOk = true := by
      rw [hslot.2]
      exact (Slot.isOk_update hopens).mpr ⟨kvs₁, hk⟩
    refine Or.inl ⟨kvs₂, hk', by rwa [status_issue], ?_, ?_,
      Update.noEmptyRow_onTablet h.single hk', ?_, ?_⟩
    · intro q
      rw [cluster_issue]
      exact isUp_update_handle h.isUp _ q
    · intro q
      rw [cluster_issue]
      exact noEmptyRow_update_handle h.noEmptyRow _ q
    · intro f hf
      rcases mem_inflight_issue_eq hf with hf | rfl
      · exact h.targets f hf
      · rw [ht]
    · intro row column
      rw [cell_issue ht (h.isUp t) hk row column, Update.cells_onTablet hk']
      split_ifs with hcell
      · rw [hcell, Function.update_self]
      · rw [Function.update_of_ne hcell]
        exact h.cells row column
  · have hhandle : handle hash t (env t) u (n.cluster t) = (n.cluster t, st) :=
      handle_of_error hself (h.isUp t) (ht ▸ hk) (env t)
    have hst : st.isOk = false := (Update.exec_cells_error hk).2
    exact Or.inr ⟨st, hk', hst, by simp [Network.issue, hhandle, hst]⟩

end Network

/-! ### The clients of the workers -/

/-- How far a call has come. -/
inductive CallPhase where
  /-- It is made. -/
  | waiting (c : ClientCall)
  /-- It is served, as request `flight` of the network if it writes. -/
  | served (answer : Option Bytes) (flight : Option ℕ)
  /-- It has returned. -/
  | returned (answer : Option Bytes)

/-- The network of the workers, the calls, and what the clients have seen. -/
structure Clients where
  /-- The workers and the writes in flight. -/
  network : Network
  /-- The calls, by a number of their own. -/
  calls : ℕ → Option CallPhase
  /-- The calls made and the answers given. -/
  history : List (Event ℕ ClientCall (Option Bytes))

namespace Clients

/-- What can happen. -/
inductive Step where
  /-- A client makes call `id`. -/
  | invoke (id : ℕ) (c : ClientCall)
  /-- Worker `p` makes its own part of call `id`. -/
  | serve (id p : ℕ) (env : ℕ → Env)
  /-- The next replica of request `i` is called. -/
  | deliver (i : ℕ) (env : ℕ → Env)
  /-- Call `id` returns. -/
  | respond (id : ℕ)

variable (hash : Bytes → UInt64)

/-- The phase of a call is set. -/
def setPhase (s : Clients) (id : ℕ) (phase : CallPhase) : Clients :=
  { s with calls := Function.update s.calls id (some phase) }

/-- A client sees something. -/
def record (s : Clients) (e : Event ℕ ClientCall (Option Bytes)) : Clients :=
  { s with history := s.history ++ [e] }

/-- The network is a step further. -/
def setNetwork (s : Clients) (n : Network) : Clients := { s with network := n }

/-- Worker `p` makes its own part of a call, as one step. The handlers of `worker.cc` take no
lock: two of them that are at work in one process at the same time are not described. -/
def serve (s : Clients) (id p : ℕ) (env : ℕ → Env) : Clients :=
  match s.calls id with
  | some (.waiting (.get row column)) =>
    s.setPhase id (.served (Worker.get hash p row column (s.network.cluster p)).toOption none)
  | some (.waiting (.update u)) =>
    let (network, st) := s.network.issue hash p u env
    (s.setNetwork network).setPhase id (.served (SingleNode.outcome st)
      (if st.isOk then some s.network.inflight.length else none))
  | _ => s

/-- All replicas of a request have been called. -/
def delivered (n : Network) : Option ℕ → Bool
  | none => true
  | some i => (n.inflight[i]?.map Flight.targets).getD [] = []

/-- One step. -/
def step (s : Clients) : Step → Clients
  | .invoke id c =>
    match s.calls id with
    | none => (s.setPhase id (.waiting c)).record (.invoke id c)
    | some _ => s
  | .serve id p env => s.serve hash id p env
  | .deliver i env => s.setNetwork (s.network.deliver hash i env)
  | .respond id =>
    match s.calls id with
    | some (.served answer flight) =>
      if delivered s.network flight then
        (s.setPhase id (.returned answer)).record (.respond id answer)
      else s
    | _ => s

/-- All workers are up, with empty tablets, and no call has been made. -/
def start : Clients := ⟨Network.start, fun _ => none, []⟩

/-- What is asked of a step: a call is sent to the worker the coordinator names,
which can open its checkpoint file if it has to. -/
def StepOk (s : Clients) : Step → Prop
  | .serve id p env => ∀ c, s.calls id = some (.waiting c) →
      Cluster.lookup hash s.network.cluster.isAlive c.row = some p ∧
        ((slotAt p (tabletOf hash c.row) (s.network.cluster p)).checkpointDue = true →
          (env p).opens = true)
  | _ => True

/-! ### The calls in the order they are served -/

/-- What is known of a call in a phase. -/
def PhaseOk (history : List (Event ℕ ClientCall (Option Bytes)))
    (ops : List (Op ℕ ClientCall (Option Bytes))) (id : ℕ) : Option CallPhase → Prop
  | none => ∀ op ∈ ops, op.id ≠ id
  | some (.waiting c) => Event.invoke id c ∈ history ∧ ∀ op ∈ ops, op.id ≠ id
  | some (.served answer _) => ∃ op ∈ ops, op.id = id ∧ op.output = answer
  | some (.returned _) => True

/-- **The calls, in the order they were served, explain what the clients have seen.** -/
structure Explained (s : Clients) (ops : List (Op ℕ ClientCall (Option Bytes))) : Prop where
  /-- The workers stand for the tablet of the single node. -/
  standsFor : s.network.StandsFor hash (final SingleNode.serve ∅ ops)
  /-- The history is explained. -/
  linearizes : Linearizes SingleNode.serve ∅ s.history ops
  /-- The calls. -/
  phases : ∀ id, PhaseOk s.history ops id (s.calls id)

section Phases

variable {history history' : List (Event ℕ ClientCall (Option Bytes))}
  {ops ops' : List (Op ℕ ClientCall (Option Bytes))} {id : ℕ} {phase : Option CallPhase}

theorem PhaseOk.record (h : PhaseOk history ops id phase)
    (e : Event ℕ ClientCall (Option Bytes)) : PhaseOk (history ++ [e]) ops id phase := by
  rcases phase with _ | ⟨c⟩ | ⟨answer, flight⟩ | ⟨answer⟩
  · exact h
  · exact ⟨List.mem_append_left _ h.1, h.2⟩
  · exact h
  · exact h

theorem PhaseOk.concat (h : PhaseOk history ops id phase)
    {op : Op ℕ ClientCall (Option Bytes)} (hne : op.id ≠ id) :
    PhaseOk history (ops ++ [op]) id phase := by
  have hno : (∀ op' ∈ ops, op'.id ≠ id) → ∀ op' ∈ ops ++ [op], op'.id ≠ id := by
    intro hops op' hop'
    rcases List.mem_append.mp hop' with hop' | hop'
    · exact hops op' hop'
    · exact List.mem_singleton.mp hop' ▸ hne
  rcases phase with _ | ⟨c⟩ | ⟨answer, flight⟩ | ⟨answer⟩
  · exact hno h
  · exact ⟨h.1, hno h.2⟩
  · obtain ⟨op', hop', heq⟩ := h
    exact ⟨op', List.mem_append_left _ hop', heq⟩
  · exact h

/-- One call changes its phase. -/
theorem phaseOk_update {calls : ℕ → Option CallPhase} {new : CallPhase}
    (h : ∀ id' ≠ id, PhaseOk history ops id' (calls id')) (hid : PhaseOk history ops id new)
    (id' : ℕ) : PhaseOk history ops id' (Function.update calls id (some new) id') := by
  rcases eq_or_ne id' id with rfl | hne
  · rwa [Function.update_self]
  · rw [Function.update_of_ne hne]
    exact h id' hne

end Phases

variable {hash} {s : Clients} {ops : List (Op ℕ ClientCall (Option Bytes))}

theorem explained_start : Explained hash start [] where
  standsFor := Network.standsFor_start hash
  linearizes := Linearizes.empty
  phases := fun _ _ h => absurd h List.not_mem_nil

/-- A call is made. -/
theorem explained_invoke (h : Explained hash s ops) (id : ℕ) (c : ClientCall) :
    Explained hash (s.step hash (.invoke id c)) ops := by
  rcases hid : s.calls id with _ | phase
  · have hstep : s.step hash (.invoke id c) =
        (s.setPhase id (.waiting c)).record (.invoke id c) := by
      simp only [step, hid]
    have hnew : ∀ op ∈ ops, op.id ≠ id := by
      have hphase := h.phases id
      rwa [hid] at hphase
    rw [hstep]
    exact ⟨h.standsFor, h.linearizes.invoke hnew c,
      phaseOk_update (fun id' _ => (h.phases id').record _)
        ⟨List.mem_append_right _ (List.mem_singleton_self _), hnew⟩⟩
  · have hstep : s.step hash (.invoke id c) = s := by
      simp only [step, hid]
    rw [hstep]
    exact h

/-- The next replica of a request is called. -/
theorem explained_deliver (h : Explained hash s ops) (i : ℕ) (env : ℕ → Env) :
    Explained hash (s.step hash (.deliver i env)) ops :=
  ⟨h.standsFor.deliver i env, h.linearizes, h.phases⟩

/-- A call returns. -/
theorem explained_respond (h : Explained hash s ops) (id : ℕ) :
    Explained hash (s.step hash (.respond id)) ops := by
  have hphase := h.phases id
  rcases hid : s.calls id with _ | ⟨c⟩ | ⟨answer, flight⟩ | ⟨answer⟩
  · have hstep : s.step hash (.respond id) = s := by
      simp only [step, hid]
    rw [hstep]
    exact h
  · have hstep : s.step hash (.respond id) = s := by
      simp only [step, hid]
    rw [hstep]
    exact h
  · rcases hdone : delivered s.network flight with _ | _
    · have hstep : s.step hash (.respond id) = s := by
        simp [step, hid, hdone]
      rw [hstep]
      exact h
    have hstep : s.step hash (.respond id) =
        (s.setPhase id (.returned answer)).record (.respond id answer) := by
      simp only [step, hid, hdone, if_true]
    rw [hid] at hphase
    obtain ⟨op, hop, rfl, rfl⟩ := hphase
    rw [hstep]
    exact ⟨h.standsFor, h.linearizes.respond hop,
      phaseOk_update (fun id' _ => (h.phases id').record _) trivial⟩
  · have hstep : s.step hash (.respond id) = s := by
      simp only [step, hid]
    rw [hstep]
    exact h

/-- **A read takes effect** when it is served. -/
theorem explained_serve_get (h : Explained hash s ops) {id : ℕ} {row column : Bytes}
    (hid : s.calls id = some (.waiting (.get row column))) :
    ∃ op, Explained hash (s.setPhase id (.served (Worker.get hash (tabletOf hash row) row column
      (s.network.cluster (tabletOf hash row))).toOption none)) (ops ++ [op]) := by
  have hphase := h.phases id
  rw [hid] at hphase
  obtain ⟨hinv, hnew⟩ := hphase
  have hout : (SingleNode.serve (final SingleNode.serve ∅ ops) (.get row column)).2 =
      (Worker.get hash (tabletOf hash row) row column
        (s.network.cluster (tabletOf hash row))).toOption := by
    rw [h.standsFor.get_eq, SingleNode.serve, SingleNode.get_toOption, Tablet.get_toOption]
  refine ⟨⟨id, .get row column, _⟩, ?_, h.linearizes.point hnew hinv hout, ?_⟩
  · rw [final_concat]
    exact h.standsFor
  · exact phaseOk_update (fun id' hne => (h.phases id').concat hne.symm)
      ⟨_, List.mem_append_right _ (List.mem_singleton_self _), rfl, rfl⟩

/-- **A write takes effect** when the worker makes its own part. -/
theorem explained_serve_update (h : Explained hash s ops) {id t : ℕ} {u : Update}
    (ht : t = tabletOf hash u.row) (hid : s.calls id = some (.waiting (.update u)))
    {env : ℕ → Env} (hopens : (slotAt t t (s.network.cluster t)).checkpointDue = true →
      (env t).opens = true) (flight : Option ℕ) :
    ∃ op, Explained hash ((s.setNetwork (s.network.issue hash t u env).1).setPhase id
      (.served (SingleNode.outcome (s.network.issue hash t u env).2) flight)) (ops ++ [op]) := by
  have hphase := h.phases id
  rw [hid] at hphase
  obtain ⟨hinv, hnew⟩ := hphase
  have hserve : ∃ kvs', SingleNode.serve (final SingleNode.serve ∅ ops) (.update u) =
      (kvs', SingleNode.outcome (s.network.issue hash t u env).2) ∧
        (s.network.issue hash t u env).1.StandsFor hash kvs' := by
    rcases h.standsFor.issue ht hopens with ⟨kvs', hk, hok, hnext⟩ | ⟨st, hk, hst, hissue⟩
    · have hout : SingleNode.outcome (s.network.issue hash t u env).2 = some [] := if_pos hok
      refine ⟨kvs', ?_, hnext⟩
      rw [hout, SingleNode.serve, SingleNode.update_of_onTablet hk]
      rfl
    · have hout : SingleNode.outcome st = none := if_neg (by simp [hst])
      refine ⟨final SingleNode.serve ∅ ops, ?_, ?_⟩
      · rw [hissue, hout, SingleNode.serve, SingleNode.update_of_error hk]
        rfl
      · rw [hissue]
        exact h.standsFor
  obtain ⟨kvs', hserve, hnext⟩ := hserve
  refine ⟨⟨id, .update u, _⟩, ?_, h.linearizes.point hnew hinv (congrArg Prod.snd hserve), ?_⟩
  · rw [final_concat, hserve]
    exact hnext
  · exact phaseOk_update (fun id' hne => (h.phases id').concat hne.symm)
      ⟨_, List.mem_append_right _ (List.mem_singleton_self _), rfl, rfl⟩

/-- A call that does not wait is not served. -/
theorem serve_of_not_waiting {id : ℕ} (hid : ∀ c, s.calls id ≠ some (.waiting c)) (p : ℕ)
    (env : ℕ → Env) : s.serve hash id p env = s := by
  rw [serve]
  rcases hphase : s.calls id with _ | ⟨c⟩ | ⟨answer, flight⟩ | ⟨answer⟩
  · rfl
  · exact absurd hphase (hid c)
  · rfl
  · rfl

/-- A step keeps an explanation, or adds the call that is served to it. -/
theorem explained_step (h : Explained hash s ops) {e : Step} (he : StepOk hash s e) :
    ∃ ops', Explained hash (s.step hash e) ops' := by
  cases e with
  | invoke id c => exact ⟨ops, explained_invoke h id c⟩
  | deliver i env => exact ⟨ops, explained_deliver h i env⟩
  | respond id => exact ⟨ops, explained_respond h id⟩
  | serve id p env =>
    by_cases hwait : ∃ c, s.calls id = some (.waiting c)
    · obtain ⟨c, hid⟩ := hwait
      obtain ⟨hp, hopens⟩ := he c hid
      -- all workers are up, so the first candidate is the one that is named
      obtain rfl : tabletOf hash c.row = p := by
        have hfirst : firstAlive s.network.cluster.isAlive (tabletOf hash c.row) =
            some (tabletOf hash c.row) := firstAlive_self (h.standsFor.isUp _)
        rw [Cluster.lookup_eq, hfirst] at hp
        exact Option.some.inj hp
      cases c with
      | get row column =>
        have hstep : s.step hash (.serve id (tabletOf hash row) env) =
            s.setPhase id (.served (Worker.get hash (tabletOf hash row) row column
              (s.network.cluster (tabletOf hash row))).toOption none) := by
          simp only [step, serve, hid]
        obtain ⟨op, hop⟩ := explained_serve_get h hid
        exact ⟨_, hstep ▸ hop⟩
      | update u =>
        obtain ⟨op, hop⟩ := explained_serve_update h rfl hid hopens
          (if (s.network.issue hash (tabletOf hash u.row) u env).2.isOk
            then some s.network.inflight.length else none)
        have hstep : s.step hash (.serve id (tabletOf hash u.row) env) =
            (s.setNetwork (s.network.issue hash (tabletOf hash u.row) u env).1).setPhase id
              (.served (SingleNode.outcome (s.network.issue hash (tabletOf hash u.row) u env).2)
                (if (s.network.issue hash (tabletOf hash u.row) u env).2.isOk
                  then some s.network.inflight.length else none)) := by
          simp only [step, serve, hid]
        exact ⟨_, hstep ▸ hop⟩
    · have hstep : s.step hash (.serve id p env) = s :=
        serve_of_not_waiting (fun c hid => hwait ⟨c, hid⟩) p env
      rw [hstep]
      exact ⟨ops, h⟩

/-- **The workers are one node to their clients**: in every run, however the calls
and the calls of replicas interleave, what the clients see is linearizable. -/
theorem linearizable_of_reaches (h : Runs.Reaches (step hash) (StepOk hash) start s) :
    Linearizable SingleNode.serve ∅ s.history := by
  have hkeep : ∀ t e, (∃ ops, Explained hash t ops) → StepOk hash t e →
      ∃ ops, Explained hash (t.step hash e) ops := by
    rintro t e ⟨ops, ht⟩ he
    exact explained_step ht he
  obtain ⟨ops, hops⟩ := @Runs.Reaches.invariant _ _ _ _ _ _
    (fun s => ∃ ops, Explained hash s ops) h ⟨[], explained_start⟩ hkeep
  exact ⟨ops, hops.linearizes⟩

/-- A write, and a read of the same cell that returns before the write does. -/
noncomputable def readInBetween : List Step :=
  [.invoke 0 (.update (.put [1] [2] [3])), .serve 0 1 Cluster.anyEnv, .invoke 1 (.get [1] [2]),
    .serve 1 1 Cluster.anyEnv, .respond 1, .deliver 0 Cluster.anyEnv, .deliver 0 Cluster.anyEnv,
    .respond 0]

theorem linearizable_readInBetween :
    (readInBetween.foldl (step fun _ => 0) start).history =
        [.invoke 0 (.update (.put [1] [2] [3])), .invoke 1 (.get [1] [2]),
          .respond 1 (some [3]), .respond 0 (some [])] ∧
      Linearizable SingleNode.serve ∅ (readInBetween.foldl (step fun _ => 0) start).history := by
  refine ⟨rfl, linearizable_of_reaches (Runs.Reaches.of_along ?_)⟩
  have hlookup : ∀ n : Clients, (n.network.cluster 1).isUp = true → ∀ row,
      Cluster.lookup (fun _ => 0) n.network.cluster.isAlive row = some 1 := by
    intro n hup row
    rw [Cluster.lookup_eq]
    exact firstAlive_self hup
  refine ⟨trivial, fun c _ => ⟨hlookup _ rfl _, fun _ => rfl⟩, trivial,
    fun c _ => ⟨hlookup _ rfl _, fun _ => rfl⟩, trivial, trivial, trivial, trivial, trivial⟩

end Clients

end PennCloud
