import PennCloud.Frontend.Fields
import PennCloud.Frontend.Sessions

/-!
# The admin console

The branches of `client_connection` that call the `AdminConsoleService` of
`frontend/admin/admin_service.cc`. Three of them – the dashboard and the two that
stop and start servers – let in the session of `admin` only. The other three do not
look at the session: the state of the workers, and the pages of a worker and of a
tablet, which shows all rows, passwords and sessions included.

`PennCloud.adminOperation` is the operation that a request invokes, and
`PennCloud.restricted_iff` says when only the admin can invoke it: when the request
does not find one of the three branches without a test, or comes from the admin
anyway.
-/

namespace PennCloud

open Wire Calls Text

/-! ### The operations -/

/-- A call of the `AdminConsoleService`. -/
inductive AdminOperation where
  | home
  | fetchWorkerStatuses
  | workerPage (workerId : ℤ)
  | tabletPage (workerId tabletId : ℤ)
  | handleToggle (worker command : Bytes)
  | handleFrontendToggle (port action : Bytes)
  deriving DecidableEq

/-- The digit behind a word, as `request[pos] - '0'` computes it: any `char` is
taken, and behind the last one is a NUL. -/
def digitBehind (word : String) (request : Bytes) : ℤ :=
  let char := (((cut (ascii word) request).map Prod.snd).getD []).headD 0
  (if char < 128 then (char.toNat : ℤ) else (char.toNat : ℤ) - 256) - 48

/-- The field of a form; the empty text, if it is missing. -/
def field (postData : Bytes) (key : String) : Bytes :=
  (param (parseQueryParams postData) (ascii key)).getD []

/-- The test of the three guarded branches. -/
def onlyAdmin (request : Bytes) (op : Handler AdminOperation) :
    Handler (Option AdminOperation) := do
  let username ← getUsernameFromSession (extractSessionId request)
  if username.isEmpty || username ≠ ascii "admin" then return none
  else
    let operation ← op
    return some operation

/-- The operation that a request invokes, where `received` is what `read` returns
after it. The other branches invoke none. -/
def adminOperation (received : List Bytes) (request : Bytes) : Handler (Option AdminOperation) :=
  match clientConnection request with
  | some .adminDashboard => onlyAdmin request (return .home)
  | some .adminWorkerStatus => return some .fetchWorkerStatuses
  | some .adminTabletPage =>
    return some (.tabletPage (digitBehind "worker=" request) (digitBehind "&tablet=" request))
  | some .adminWorkerPage => return some (.workerPage (digitBehind "worker=" request))
  | some .adminToggle => onlyAdmin request
      (return .handleToggle (field (requestBody request) "workerId")
        (field (requestBody request) "action"))
  | some .frontendToggle => onlyAdmin request do
      let postData ← readRequestBody received request
      return .handleFrontendToggle (field postData "port") (field postData "action")
  | _ => return none

/-! ### Who invokes them -/

section Restricted

variable (master : Master) (kvs : Tablet) (received : List Bytes) (request : Bytes)

/-- The session of a request is that of the admin. -/
def FromAdmin : Prop :=
  ((getUsernameFromSession (extractSessionId request)).run (Call.exec master) kvs).1 =
    .ok (ascii "admin")

/-- The request invokes an operation. -/
def Invokes (op : AdminOperation) : Prop :=
  ((adminOperation received request).run (Call.exec master) kvs).1 = .ok (some op)

/-- **Only the admin invokes an operation** with this request. -/
def Restricted : Prop := ∀ op, Invokes master kvs received request op → FromAdmin master kvs request

/-- The branches that do not look at the session. -/
def unguarded : List Branch := [.adminWorkerStatus, .adminTabletPage, .adminWorkerPage]

variable {master kvs received request}

/-- What is behind the test is done for the admin only. -/
theorem fromAdmin_of_onlyAdmin {op : Handler AdminOperation} {operation : AdminOperation}
    (h : ((onlyAdmin request op).run (Call.exec master) kvs).1 = .ok (some operation)) :
    FromAdmin master kvs request := by
  rcases Prog.run_bind (Call.exec master) (getUsernameFromSession (extractSessionId request))
    (fun username => if username.isEmpty || username ≠ ascii "admin" then return none
      else do
        let operation ← op
        return some operation) kvs with ⟨username, hsession, hrest⟩ | ⟨e, -, hrest⟩
  · by_cases hadmin : username = ascii "admin"
    · rw [FromAdmin, hsession, hadmin]
    · have hrefused : (username.isEmpty || decide (username ≠ ascii "admin")) = true := by
        simp [hadmin]
      rw [onlyAdmin, hrest, if_pos hrefused] at h
      cases h
  · rw [onlyAdmin, hrest] at h
    cases h

/-- **Only the admin invokes an operation, unless the branch does not look.** -/
theorem restricted_iff : Restricted master kvs received request ↔
    (∀ branch ∈ unguarded, clientConnection request ≠ some branch) ∨
      FromAdmin master kvs request := by
  constructor
  · intro h
    refine or_iff_not_imp_right.mpr fun hadmin branch hmem hbranch => hadmin ?_
    simp only [unguarded, List.mem_cons, List.not_mem_nil, or_false] at hmem
    rcases hmem with rfl | rfl | rfl
    · exact h .fetchWorkerStatuses (by rw [Invokes, adminOperation, hbranch]; rfl)
    · exact h (.tabletPage (digitBehind "worker=" request) (digitBehind "&tablet=" request))
        (by rw [Invokes, adminOperation, hbranch]; rfl)
    · exact h (.workerPage (digitBehind "worker=" request))
        (by rw [Invokes, adminOperation, hbranch]; rfl)
  · rintro (hguarded | hadmin) op hop
    · rw [Invokes, adminOperation] at hop
      split at hop
      · exact fromAdmin_of_onlyAdmin hop
      · exact absurd ‹_› (hguarded .adminWorkerStatus (by decide))
      · exact absurd ‹_› (hguarded .adminTabletPage (by decide))
      · exact absurd ‹_› (hguarded .adminWorkerPage (by decide))
      · exact fromAdmin_of_onlyAdmin hop
      · exact fromAdmin_of_onlyAdmin hop
      · cases hop
    · exact hadmin

end Restricted

/-- A request for the rows of a tablet, without a session. -/
def tabletRequest : Bytes :=
  ascii ("GET /admin/backend?worker=1&tablet=1 HTTP/1.1\r\nConnection: keep-alive\r\n\r\n")

/-- **Anybody sees the rows of a tablet.** -/
theorem tablet_not_restricted :
    Invokes Master.first ∅ [] tabletRequest (.tabletPage 1 1) ∧
      ¬FromAdmin Master.first ∅ tabletRequest ∧ ¬Restricted Master.first ∅ [] tabletRequest := by
  have hinvokes : Invokes Master.first ∅ [] tabletRequest (.tabletPage 1 1) := by
    rw [Invokes]
    decide +kernel
  have hnot : ¬FromAdmin Master.first ∅ tabletRequest := by
    rw [FromAdmin]
    decide +kernel
  exact ⟨hinvokes, hnot, fun h => hnot (h _ hinvokes)⟩

end PennCloud
