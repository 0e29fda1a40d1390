import PennCloud.Backend.SingleNode
import PennCloud.Frontend.Authority
import PennCloud.Lib.RemoteCalls

/-!
# The front end on the six workers

The services of the front end are written for one store, and what is said of them is said of one
store. In the deployment a call goes to the coordinator, or to the worker that the coordinator
names; a write is passed on to the replicas before it returns, and all of that interleaves with
the calls of everybody else (`PennCloud.Deployment.server`).

* `PennCloud.Deployment.implements` – as long as all workers are up, they do what the one store
  does, down to the wording of the errors.
* `PennCloud.Deployment.refines_store` – so whatever the clients of a deployment are answered,
  they are answered in some schedule of the one store.
* `PennCloud.Deployment.files_guarded` – and files are behind a password there as well: the cells
  that say so are on the workers.
-/

namespace PennCloud

open Wire Calls Worker Text

namespace Deployment

/-! ### Calls of the workers -/

/-- How a call is served. -/
structure Serving where
  /-- The worker that it is sent to. -/
  worker : ℕ
  /-- The surroundings of the workers. -/
  env : ℕ → Env

/-- The text a client returns for a write. -/
def writeText (u : Update) (st : Status) : Bytes := if st.isOk then u.successText else st.err

variable (hash : Bytes → UInt64)

/-- The coordinator, which knows the workers that are up. -/
def coordinator (n : Network) : Master := (Cluster.master n.cluster.isAlive).lookup hash

/-- A call is served: the coordinator answers it, or a worker, which makes its own part of a
write and has the calls of the replicas left. That is one step: a worker serves one call at a
time, though `worker.cc` takes no lock. -/
def serve (v : Serving) : Call → Network → Bytes × Option ℕ × Network
  | .lookup key, n => (clientText (coordinator hash n key), none, n)
  | .get row column, n =>
    (clientText (Worker.get hash v.worker row column (n.cluster v.worker)), none, n)
  | .update u, n =>
    let (network, st) := n.issue hash v.worker u v.env
    (writeText u st, if st.isOk then some n.inflight.length else none, network)

/-- The coordinator and the workers. By themselves they call replicas, and a write returns when
all of its own have been called. -/
def server : Server Call Bytes Network (Option ℕ) Serving (ℕ × (ℕ → Env)) where
  serve := serve hash
  inner := fun d n => n.deliver hash d.1 d.2
  returns := fun flight n => Clients.delivered n flight

/-- A call is sent to the worker the coordinator names, which can open its checkpoint file if it
has to. -/
def Sent (n : Network) (c : Call) (v : Serving) : Prop :=
  ∀ row, c.row = some row → Cluster.lookup hash n.cluster.isAlive row = some v.worker ∧
    ((slotAt v.worker (tabletOf hash row) (n.cluster v.worker)).checkpointDue = true →
      (v.env v.worker).opens = true)

/-- The coordinator while all workers are up. -/
def master : Master := (Cluster.master fun _ => true).lookup hash

variable {hash}

theorem coordinator_eq {n : Network} {kvs : Tablet} (h : n.StandsFor hash kvs) :
    coordinator hash n = master hash := by
  have hup : n.cluster.isAlive = fun _ => true := funext h.isUp
  rw [coordinator, hup, master]

/-- The worker that is named has the number of the tablet. -/
theorem Sent.worker_eq {n : Network} {kvs : Tablet} {c : Call} {v : Serving} {row : Bytes}
    (hs : Sent hash n c v) (h : n.StandsFor hash kvs) (hrow : c.row = some row) :
    v.worker = tabletOf hash row := by
  have hfirst : firstAlive n.cluster.isAlive (tabletOf hash row) = some (tabletOf hash row) :=
    firstAlive_self (h.isUp _)
  have hlookup := (hs row hrow).1
  rw [Cluster.lookup_eq, hfirst] at hlookup
  exact (Option.some.inj hlookup).symm

/-- **The workers do what the one store does.** -/
theorem implements : (server hash).Implements (Call.exec (master hash)) (Sent hash)
    (Network.StandsFor hash) := by
  have hserve : ∀ {n : Network} {kvs : Tablet} {c : Call} {v : Serving}, n.StandsFor hash kvs →
      Sent hash n c v → (serve hash v c n).1 = (Call.exec (master hash) c kvs).1 ∧
        (serve hash v c n).2.2.StandsFor hash (Call.exec (master hash) c kvs).2 := by
    intro n kvs c v h hs
    rcases c with key | ⟨row, column⟩ | u
    · refine ⟨?_, h⟩
      rw [serve, coordinator_eq h]
      rfl
    · refine ⟨?_, h⟩
      rw [serve, hs.worker_eq h rfl, h.get_eq]
      rfl
    · have hworker := hs.worker_eq h rfl
      have hopens := (hs u.row rfl).2
      rw [← hworker] at hopens
      rcases h.issue hworker hopens with ⟨kvs', hk, hok, hnext⟩ | ⟨st, hk, hst, hissue⟩
      · have hexec : Call.exec (master hash) (.update u) kvs = (u.successText, kvs') := by
          simp only [Call.exec, hk]
        rw [hexec]
        exact ⟨if_pos hok, hnext⟩
      · have hexec : Call.exec (master hash) (.update u) kvs = (st.err, kvs) := by
          simp only [Call.exec, hk]
        rw [hexec, serve, hissue]
        exact ⟨if_neg (by simp [hst]), h⟩
  exact ⟨fun h hs => (hserve h hs).1, fun h hs => (hserve h hs).2, fun d h => h.deliver d.1 d.2⟩

/-! ### The clients of a deployment -/

section Clients

variable {ι α : Type} [DecidableEq ι]

/-- The workers, and the handlers that call them. -/
abbrev Deployed (ι α : Type) := Remote ι Call Bytes Abort α Network (Option ℕ)

/-- All workers are up, with empty tablets, and the handlers begin. -/
def start (progs : ι → Handler α) : Deployed ι α := Remote.start Network.start progs

/-- The states that a run leads to. -/
abbrev Leads (hash : Bytes → UInt64) : Deployed ι α → Deployed ι α → Prop :=
  Remote.Leads (server hash) (Sent hash)

variable {progs : ι → Handler α} {s : Deployed ι α}

omit [DecidableEq ι] in
theorem explained_start (progs : ι → Handler α) : Remote.Explained (Network.StandsFor hash)
    (start progs) (Config.start ∅ progs) :=
  ⟨Network.standsFor_start hash, fun _ => rfl⟩

/-- **A deployment is one store to its clients.** Every run of the workers, with any handlers and
however their calls and those of the replicas interleave, is a schedule of the one store: the
handlers are where they are there once the calls that have been served return, those that have
come to an end have come to the same, and the workers that are asked have the cells of the
store. -/
theorem refines_store (h : Leads hash (start progs) s) :
    ∃ t, Config.Leads (Call.exec (master hash)) (Config.start ∅ progs) t ∧
      (∀ i, t.progs i = s.ahead i) ∧ (∀ i a, s.progs i = .done a → t.progs i = .done a) ∧
      ∀ row column, s.system.cell hash row column = t.store.cells (row, column) := by
  obtain ⟨t, past, ht, hexp, -⟩ := Remote.exists_schedule implements (explained_start progs) h
  refine ⟨t, ht, hexp.progs, fun i a hi => ?_, hexp.store.cells⟩
  rw [hexp.progs i, Remote.ahead, hi]
  rcases s.pending i with _ | ⟨answer, ticket⟩
  · rfl
  · rfl

/-- **Files are behind a password in the deployment.** Whatever texts are sent to the front ends
and to the mail server, and however the calls of everybody, those of the replicas and the answers
follow each other: when a call on the row of a user's files is about to be served, the workers
have held the cookie of the request as a session of that user at some moment before; and at some
moment before that one they have held the password that the login which was given the session had
named. The exceptions are those of the one store. -/
theorem files_guarded {parties : ι → Party} {s : Deployed ι (Option Response)}
    (h : Leads hash (start fun i => (parties i).handler) s) {i : ι} (hi : s.pending i = none)
    {c : Call} {k : Bytes → Handler (Option Response)} (hc : s.progs i = .call c k) {u : Bytes}
    (hrow : c.row = some (storageRow u)) (hu : ¬NamedLikeMailbox u) :
    ∃ r v, parties i = .browser r ∧ Leads hash (start fun i => (parties i).handler) v ∧
      Leads hash v s ∧ v.system.cell hash sessionRow r.cookie = some u ∧
      ((r.cookie = activeUsersColumn ∧ [59] <:+ u) ∨
        ∃ j q p w, parties j = .browser q ∧ q.AsksLogin u p ∧
          (∃ n ∈ q.draws, r.cookie = decimal n) ∧
          Leads hash (start fun i => (parties i).handler) w ∧ Leads hash w v ∧
          w.system.cell hash (userinfo u) passwordColumn = some p) := by
  obtain ⟨t, past, ht, hexp, hpast⟩ := Remote.exists_schedule implements (explained_start _) h
  have hcall : t.progs i = .call c k := (hexp.progs_eq hi).trans hc
  obtain ⟨r, hr, hne, t₁, ht₁, ht₁t, hcell⟩ := once_session_of_call ht hcall hrow hu
  obtain ⟨hv, hvs, hv'⟩ := hpast.explained t₁ ht₁ ht₁t
  refine ⟨r, past t₁, hr, hv, hvs, (hv'.store.cells _ _).trans hcell, ?_⟩
  refine (origin_of_session (fun _ => rfl) ht₁ hne hcell).imp_right ?_
  rintro ⟨j, q, p, hq, hasks, hn, t₂, ht₂, ht₂₁, hpassword⟩
  obtain ⟨hw, -, hw'⟩ := hpast.explained t₂ ht₂ (ht₂₁.trans ht₁t)
  exact ⟨j, q, p, past t₂, hq, hasks, hn, hw, hpast.mono t₂ t₁ ht₂ ht₂₁ ht₁t,
    (hw'.store.cells _ _).trans hpassword⟩

/-! ### Three requests again -/

/-- Everything is on the tablet of the first worker. -/
def oneTablet : Bytes → UInt64 := fun _ => 0

/-- A call is sent to the first worker. -/
noncomputable def first : Serving := ⟨1, Cluster.anyEnv⟩

/-- While all workers are up, that is right for every call. -/
theorem leads_of_first {progs : ι → Handler α} (es : List (Remote.Step ι Serving (ℕ × (ℕ → Env))))
    (hes : ∀ i v, .serve i v ∈ es → v = first) :
    Leads oneTablet (start progs) (es.foldl (Remote.step (server oneTablet)) (start progs)) := by
  induction es using List.reverseRecOn with
  | nil => exact .refl _
  | append_singleton es e ih =>
    have hrun := ih fun i v hv => hes i v (List.mem_append_left _ hv)
    obtain ⟨t, past, -, hexp, -⟩ := Remote.exists_schedule implements (explained_start progs) hrun
    rw [List.foldl_append, List.foldl_cons, List.foldl_nil]
    refine Runs.Reaches.tail hrun ?_
    cases e with
    | inner d => exact trivial
    | respond i => exact trivial
    | serve i v =>
      obtain rfl := hes i v (List.mem_append_right _ (List.mem_singleton_self _))
      intro _ c k _ row _
      refine ⟨?_, fun _ => rfl⟩
      rw [Cluster.lookup_eq]
      exact firstAlive_self (hexp.store.isUp 1)

end Clients

/-- A call of client `i`, from its beginning to its end; if it writes, it is write number `w`. -/
noncomputable def wholeCall (i w : ℕ) : List (Remote.Step ℕ Serving (ℕ × (ℕ → Env))) :=
  [.serve i first, .inner (w, Cluster.anyEnv), .inner (w, Cluster.anyEnv), .respond i]

/-- The signup, the login, and the look at the files up to the call that reads them. -/
noncomputable def annsRun : List (Remote.Step ℕ Serving (ℕ × (ℕ → Env))) :=
  (List.replicate 3 (wholeCall 0 0) ++ List.replicate 6 (wholeCall 1 1) ++ [wholeCall 1 2] ++
    List.replicate 3 (wholeCall 2 3)).flatten

/-- The deployment then. -/
noncomputable def annsDeployment : Deployed ℕ (Option Response) :=
  annsRun.foldl (Remote.step (server oneTablet)) (start fun i => (threeRequests i).handler)

theorem leads_annsDeployment :
    Leads oneTablet (start fun i => (threeRequests i).handler) annsDeployment := by
  refine leads_of_first annsRun fun i v hv => ?_
  obtain ⟨call, hcall, hmem⟩ := List.mem_flatten.mp hv
  have hwhole : ∃ j w, call = wholeCall j w := by
    simp only [List.mem_append, List.mem_replicate, List.mem_singleton] at hcall
    rcases hcall with ((⟨-, rfl⟩ | ⟨-, rfl⟩) | rfl) | ⟨-, rfl⟩ <;> exact ⟨_, _, rfl⟩
  obtain ⟨j, w, rfl⟩ := hwhole
  simp only [wholeCall, List.mem_cons, Remote.Step.serve.injEq, reduceCtorEq, List.not_mem_nil,
    or_false] at hmem
  exact hmem.2

/-- The third client is about to read the files. -/
theorem annsDeployment_two : annsDeployment.pending 2 = none ∧ (annsDeployment.progs 2).next =
    some (.get (storageRow (ascii "ann")) (metaCol [])) := by
  decide +kernel

/-- In the one store they are where they are in the deployment. -/
theorem refines_store_anns : ∃ t, Config.Leads (Call.exec (master oneTablet))
      (Config.start ∅ fun i => (threeRequests i).handler) t ∧
    (t.progs 2).next = some (.get (storageRow (ascii "ann")) (metaCol [])) := by
  obtain ⟨t, ht, hprogs, -⟩ := refines_store leads_annsDeployment
  refine ⟨t, ht, ?_⟩
  rw [hprogs 2, Remote.ahead_of_none annsDeployment_two.1]
  exact annsDeployment_two.2

/-- The files are read for a session that was handed out for the password. -/
theorem files_guarded_anns : ∃ j q p, threeRequests j = .browser q ∧
    q.AsksLogin (ascii "ann") p := by
  obtain ⟨k, hk⟩ := Prog.exists_call_of_next annsDeployment_two.2
  obtain ⟨r, v, hr, -, -, -, hlist | ⟨j, q, p, w, hq, hasks, -⟩⟩ :=
    files_guarded leads_annsDeployment annsDeployment_two.1 hk rfl (by decide)
  · exact absurd hlist.1 (cookie_threeRequests hr)
  · exact ⟨j, q, p, hq, hasks⟩

example : tabletOf oneTablet (userinfo (ascii "ann")) = 1 := by decide +kernel

end Deployment

end PennCloud
