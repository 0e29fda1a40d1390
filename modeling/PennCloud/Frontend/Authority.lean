import PennCloud.Lib.Licenses
import PennCloud.Frontend.Confinement

/-!
# Who may do what

Any number of clients are at work at the same time, on any number of front ends: browsers that
send whatever texts they like, and mail clients that send whatever they like to the mail
server. Each of them is a program that calls the store, and the calls follow each other in any
order.

Nothing is locked, and accounts and sessions are subject to races. What holds in every
interleaving all the same is that a request acts on what it has *seen*:
`PennCloud.ClientRequest.Always` are the calls it may make in any case and
`PennCloud.ClientRequest.Grants` those that a reply allows it to make
(`PennCloud.licensed_serve`).

* `PennCloud.change_authorized` – who changes a cell of the store, and what they have seen
  before: a password is set by a signup that found none, or by a change that names the one that
  is there; a session is stored for the password of its user, and removed by a logout that
  names it; a row of files is changed for a session of its user; and everything else is mail.
* `PennCloud.files_behind_password` – the files of a user are read and written only on behalf
  of a session that was handed out for the user's password.

There are two gaps. The cookie `active-users` leads to a user whose name is the whole list,
which ends with a semicolon; and a user whose name begins like a mailbox has files that mail
can be sent to.
-/

namespace PennCloud

open Wire Calls Text

/-- The row that a call reads or writes. -/
def Call.row : Call → Option Bytes
  | .lookup _ => none
  | .get row _ => some row
  | .update u => some u.row

/-! ### What a request asks for -/

namespace ClientRequest

variable (r : ClientRequest)

/-- The request is for a branch that reads a form, with this body. -/
def Posts (branch : Branch) (body : Bytes) : Prop :=
  clientConnection r.text = some branch ∧ bodyBehind r.text = .ok body

/-- The request asks for a login. -/
def AsksLogin (u p : Bytes) : Prop :=
  ∃ body, r.Posts .credentials body ∧ field body "username" = u ∧ field body "password" = p

/-- The request asks for an account. -/
def AsksSignup (u p : Bytes) : Prop :=
  ∃ body, r.Posts .signup body ∧ field body "username" = u ∧ field body "password" = p

/-- The request asks for another password. -/
def AsksChange (u old new : Bytes) : Prop :=
  ∃ body, r.Posts .changePassword body ∧ field body "username" = u ∧
    field body "old_password" = old ∧ field body "new_password" = new

/-- The cookie of the request. -/
def cookie : Bytes := extractSessionId r.text

/-- The request is a login or a logout, and keeps the list of active users. -/
def KeepsList : Prop :=
  clientConnection r.text = some .credentials ∨ clientConnection r.text = some .logout

end ClientRequest

/-! ### What a request may do -/

/-- A text that the list of active users may be: each entry ends with a semicolon. -/
def ClosedList (v : Bytes) : Prop := v = [] ∨ [59] <:+ v

theorem closedList_append (v : Bytes) : ClosedList (v ++ ascii ";") :=
  Or.inr (List.suffix_append v _)

theorem closedList_keepUntil (sid : Bytes) (found : Bool) {updated : Bytes} (h : ClosedList updated)
    (entries : List Bytes) : ClosedList (keepUntil sid found updated entries) := by
  induction entries generalizing found updated with
  | nil => exact h
  | cons e es ih =>
    rw [keepUntil]
    split_ifs with hfound
    · exact ih _ h
    · exact ih _ (closedList_append _)

namespace ClientRequest

variable (r : ClientRequest)

/-- **What a request may do in any case**: ask the master, read sessions and passwords, keep
the list of active users, remove the session it names if it is a logout, and work on
mailboxes. -/
inductive Always : Call → Prop where
  | lookup (key : Bytes) : Always (.lookup key)
  | readSession (c : Bytes) : Always (.get sessionRow c)
  | readPassword (u : Bytes) : Always (.get (userinfo u) passwordColumn)
  | list {w : Update} (h : r.KeepsList) (hcell : w.cell = (sessionRow, activeUsersColumn))
      (hv : ∀ v, w.result = some v → ClosedList v) : Always (.update w)
  | logout (h : clientConnection r.text = some .logout) :
      Always (.update (.delete sessionRow r.cookie))
  | mail {c : Call} (h : c.On MailRow) : Always c

/-- **What a reply allows a request to do**: the name in a session, to work on the files of
that user; the password that the request names, to store a session for the user; no password,
to set one; and the password that it names as the old one, to change it. -/
inductive Grants : Call → Bytes → Call → Prop where
  | files {u : Bytes} {c : Call} (hne : u ≠ []) (herr : isErr u = false)
      (hc : c.On (· = storageRow u)) : Grants (.get sessionRow r.cookie) u c
  | login {u p : Bytes} {n : ℕ} (h : r.AsksLogin u p) (hp : Plain p) (hn : n ∈ r.draws) :
      Grants (.get (userinfo u) passwordColumn) p (.update (.put sessionRow (decimal n) u))
  | signup {u p t : Bytes} (h : r.AsksSignup u p) (ht : isErr t = true) :
      Grants (.get (userinfo u) passwordColumn) t (.update (.put (userinfo u) passwordColumn p))
  | change {u old new : Bytes} (h : r.AsksChange u old new) :
      Grants (.get (userinfo u) passwordColumn) old
        (.update (.cput (userinfo u) passwordColumn old new))

end ClientRequest

/-! ### Parts of the branches -/

section Parts

variable {α : Type} {grant : Call → Bytes → Call → Prop} {license : Call → Prop}

/-- The user of the session is read, and what is done for the user may be granted by the
name. -/
theorem licensed_getUsername_bind {c : Bytes} {f : Bytes → Handler α}
    (hlookup : ∀ key, license (.lookup key)) (hread : license (.get sessionRow c))
    (hnone : (f []).Licensed grant license)
    (hsome : ∀ u, isErr u = false →
      (f u).Licensed grant fun d => license d ∨ grant (.get sessionRow c) u d) :
    (getUsernameFromSession c >>= f).Licensed grant license := by
  simp only [getUsernameFromSession, Prog.bind_bind, Prog.ite_bind, Prog.pure_bind]
  refine Prog.Licensed.ask_bind (hlookup _) fun worker => ?_
  refine Prog.Licensed.ite (fun _ => ?_) fun _ => ?_
  · exact hnone.mono fun d => Or.inl
  · refine Prog.Licensed.ask_bind (Or.inl hread) fun u => ?_
    refine Prog.Licensed.ite (fun _ => ?_) fun hu => ?_
    · exact hnone.mono fun d hd => Or.inl (Or.inl hd)
    · exact (hsome u (Bool.eq_false_iff.mpr hu)).mono fun d => Or.imp_left Or.inl

/-- The password is tried, and what is done when it is right may be granted by it. -/
theorem licensed_authenticate_bind {u p : Bytes} {f : Bool → Handler α}
    (hlookup : ∀ key, license (.lookup key))
    (hread : license (.get (userinfo u) passwordColumn)) (hfalse : (f false).Licensed grant license)
    (htrue : Plain p →
      (f true).Licensed grant fun d => license d ∨ grant (.get (userinfo u) passwordColumn) p d) :
    (authenticate u p >>= f).Licensed grant license := by
  simp only [authenticate, Prog.bind_bind, Prog.ite_bind, Prog.pure_bind]
  refine Prog.Licensed.ask_bind (hlookup _) fun worker => ?_
  refine Prog.Licensed.ite (fun _ => ?_) fun _ => ?_
  · exact hfalse.mono fun d => Or.inl
  · refine Prog.Licensed.ask_bind (Or.inl hread) fun stored => ?_
    refine Prog.Licensed.ite (fun _ => hfalse.mono fun d hd => Or.inl (Or.inl hd)) fun hplain => ?_
    by_cases heq : stored = p
    · subst heq
      have hp : Plain stored := by simpa [Plain, and_comm] using hplain
      rw [decide_eq_true rfl]
      exact (htrue hp).mono fun d => Or.imp_left Or.inl
    · rw [decide_eq_false heq]
      exact hfalse.mono fun d hd => Or.inl (Or.inl hd)

/-- A number that is drawn is one of those that `rand()` returns. -/
theorem uses_drawSessionId_bind {f : Bytes → Handler α} (hread : ∀ c, license (.get sessionRow c))
    {draws : List ℕ} (hf : ∀ n ∈ draws, (f (decimal n)).Uses license) :
    (drawSessionId draws >>= f).Uses license := by
  induction draws with
  | nil => exact trivial
  | cons n draws ih =>
    have hn := hf n List.mem_cons_self
    have hrest := ih fun m hm => hf m (List.mem_cons_of_mem n hm)
    simp only [drawSessionId, Prog.bind_bind, Prog.ite_bind, Prog.pure_bind]
    refine Prog.Uses.ask_bind (hread _) fun first => ?_
    split_ifs with hfirst
    · exact hn
    · refine Prog.Uses.ask_bind (hread _) fun second => ?_
      split_ifs with hsecond
      · exact hn
      · exact hrest

end Parts

/-! ### The branches -/

section Branches

variable {r : ClientRequest}

theorem uses_generateSessionCookie (hlogin : clientConnection r.text = some .credentials)
    {license : Call → Prop} (h : ∀ c, r.Always c → license c) {u : Bytes}
    (hput : ∀ n ∈ r.draws, license (.update (.put sessionRow (decimal n) u))) :
    (generateSessionCookie u r.draws).Uses license := by
  have hlist : ∀ w : Update, w.cell = (sessionRow, activeUsersColumn) →
      (∀ v, w.result = some v → ClosedList v) → license (.update w) :=
    fun w hcell hv => h _ (.list (Or.inl hlogin) hcell hv)
  have hclosed : ∀ v w : Bytes, some (v ++ ascii ";") = some w → ClosedList w := by
    intro v w hvw
    rw [← Option.some.inj hvw]
    exact closedList_append v
  refine Prog.Uses.ask_bind (h _ (.lookup _)) fun worker => ?_
  split_ifs with hworker
  · exact trivial
  · refine uses_drawSessionId_bind (fun c => h _ (.readSession c)) fun n hn => ?_
    refine Prog.Uses.ask_bind (h _ (.readSession _)) fun activeUsers => ?_
    split_ifs with hactive
    · refine Prog.Uses.ask_bind (hput n hn) fun _ => ?_
      exact Prog.Uses.ask_bind (hlist _ rfl (hclosed _)) fun _ => trivial
    · refine Prog.Uses.ask_bind (hput n hn) fun _ => ?_
      exact Prog.Uses.ask_bind (hlist _ rfl (hclosed _)) fun _ => trivial

theorem uses_handleLogout (h : clientConnection r.text = some .logout) (username : Bytes) :
    (handleLogout r.cookie username).Uses r.Always := by
  refine Prog.Uses.ask_bind (.lookup _) fun worker => ?_
  split_ifs with hworker
  · exact trivial
  · refine Prog.Uses.ask_bind (.readSession _) fun activeUsers => ?_
    refine Prog.Uses.ask_bind (.logout h) fun _ => ?_
    refine Prog.Uses.ask_bind (.list (Or.inr h) rfl ?_) fun _ => trivial
    intro v hv
    rw [← Option.some.inj hv]
    exact closedList_keepUntil _ _ (Or.inl rfl) _

/-- A form is read without a call. -/
theorem licensed_formBody_bind {α : Type} {grant : Call → Bytes → Call → Prop}
    {license : Call → Prop} {request : Bytes} {f : Bytes → Handler α}
    (hf : ∀ body, bodyBehind request = .ok body → (f body).Licensed grant license) :
    (formBody request >>= f).Licensed grant license := by
  rw [formBody]
  rcases hbody : bodyBehind request with e | body
  · exact trivial
  · exact hf body hbody

theorem licensed_serveCredentials (h : clientConnection r.text = some .credentials) :
    (serveCredentials r.draws r.text).Licensed r.Grants r.Always := by
  refine licensed_formBody_bind fun body hbody => ?_
  refine licensed_authenticate_bind .lookup (.readPassword _) trivial fun hp => ?_
  have hasks : r.AsksLogin (field body "username") (field body "password") :=
    ⟨body, ⟨h, hbody⟩, rfl, rfl⟩
  refine (Prog.Uses.licensed ?_).bind fun sid => trivial
  exact uses_generateSessionCookie h (fun c => Or.inl) fun n hn => Or.inr (.login hasks hp hn)

theorem licensed_serveSignup (h : clientConnection r.text = some .signup) :
    (serveSignup r.text).Licensed r.Grants r.Always := by
  refine licensed_formBody_bind fun body hbody => ?_
  have hasks : r.AsksSignup (field body "username") (field body "password") :=
    ⟨body, ⟨h, hbody⟩, rfl, rfl⟩
  simp only [signup, Prog.bind_bind, Prog.ite_bind, Prog.pure_bind]
  refine Prog.Licensed.ask_bind (.lookup _) fun worker => Prog.Licensed.ite (fun _ => trivial) ?_
  refine fun _ => Prog.Licensed.ask_bind (Or.inl (.readPassword _)) fun existing => ?_
  refine Prog.Licensed.ite (fun _ => trivial) fun hnone => ?_
  have herr : isErr existing = true := by simpa using hnone
  exact Prog.Licensed.ask_bind (Or.inr (.signup hasks herr)) fun _ => trivial

theorem licensed_serveChangePassword (h : clientConnection r.text = some .changePassword) :
    (serveChangePassword r.text).Licensed r.Grants r.Always := by
  refine licensed_formBody_bind fun body hbody => ?_
  have hasks : r.AsksChange (field body "username") (field body "old_password")
      (field body "new_password") := ⟨body, ⟨h, hbody⟩, rfl, rfl, rfl⟩
  simp only [changePassword, Prog.bind_bind, Prog.ite_bind, Prog.pure_bind]
  refine Prog.Licensed.ask_bind (.lookup _) fun worker => Prog.Licensed.ite (fun _ => trivial) ?_
  refine fun _ => Prog.Licensed.ask_bind (Or.inl (.readPassword _)) fun stored => ?_
  refine Prog.Licensed.ite (fun _ => trivial) fun _ => Prog.Licensed.ite (fun _ => trivial) ?_
  intro hold
  obtain rfl : stored = field body "old_password" := not_not.mp hold
  exact Prog.Licensed.ask_bind (Or.inr (.change hasks)) fun _ => trivial

theorem licensed_serveLogout (h : clientConnection r.text = some .logout) :
    (serveLogout r.text).Licensed r.Grants r.Always := by
  have hout : ∀ username, (handleLogout r.cookie username >>= fun _ =>
      (pure (pageOrHeader r.text "200 OK" (pageWithLogin "Logged out successfully!")) :
        Handler Bytes)).Licensed r.Grants r.Always :=
    fun username => (uses_handleLogout h username).licensed.bind fun _ => trivial
  exact licensed_getUsername_bind .lookup (.readSession _) (hout []) fun u _ =>
    (hout u).mono fun d => Or.inl

/-- **The files of a user are worked on when the session names the user.** -/
theorem licensed_forUser {branch : Branch} {method : Bytes → Handler StorageReply}
    (h : r.storageBranch branch = some method) (refusal : Bytes) :
    (forUser r.text refusal method).Licensed r.Grants r.Always := by
  refine licensed_getUsername_bind .lookup (.readSession _) trivial fun u hu => ?_
  refine Prog.Licensed.ite (fun _ => trivial) fun hne => ?_
  have hu' : u ≠ [] := by simpa using hne
  refine (Prog.Uses.licensed ?_).bind fun reply => trivial
  exact (onRow_storageBranch h u).mono fun d hd => Or.inr (.files hu' hu hd)

theorem licensed_handleEmailService {env : Surroundings} {path : Bytes} {reqType : ReqType}
    {queryParams data : Bytes} :
    (handleEmailService env r.cookie path reqType queryParams data).Licensed r.Grants r.Always := by
  have hmail : (handleRequest env path reqType queryParams data).Uses r.Always :=
    (onMailRow_handleRequest env path reqType queryParams data).mono fun d => .mail
  refine licensed_getUsername_bind .lookup (.readSession _) trivial fun u _ => ?_
  refine (Prog.Uses.licensed ?_).mono fun d => Or.inl
  split_ifs with hne
  · exact trivial
  · refine Prog.Uses.ask_bind (.lookup _) fun worker => ?_
    split_ifs with hworker
    · exact trivial
    · exact hmail.bind fun _ => trivial

theorem licensed_mailBranch {branch : Branch} {p : Handler MailResponse}
    (h : mailBranch r.env r.text branch = some p) : p.Licensed r.Grants r.Always := by
  cases branch with
  | inbox =>
    obtain rfl := Option.some.inj h
    refine licensed_getUsername_bind .lookup (.readSession _) licensed_handleEmailService ?_
    exact fun u _ => licensed_handleEmailService.mono fun d => Or.inl
  | email | deleteMail | send | compose | reply | forward =>
    obtain rfl := Option.some.inj h
    exact licensed_handleEmailService
  | _ => cases h

theorem licensed_serveAdmin : (serveAdmin r.later r.text).Licensed r.Grants r.Always := by
  have honly : ∀ op : Handler AdminOperation, op.Licensed r.Grants r.Always →
      (onlyAdmin r.text op).Licensed r.Grants r.Always := by
    intro op hop
    refine licensed_getUsername_bind .lookup (.readSession _) trivial fun u _ => ?_
    refine Prog.Licensed.ite (fun _ => trivial) fun _ => ?_
    exact (hop.mono fun d => Or.inl).bind fun operation => trivial
  have hop : (adminOperation r.later r.text).Licensed r.Grants r.Always := by
    rw [adminOperation]
    split
    · exact honly _ trivial
    · exact trivial
    · exact trivial
    · exact trivial
    · exact honly _ trivial
    · exact honly _ ((uses_readRequestBody _ _).licensed.bind fun _ => trivial)
    · exact trivial
  refine hop.bind fun operation => ?_
  cases operation with
  | none => exact trivial
  | some op => exact trivial

theorem licensed_callService (branch : Branch) :
    (r.callService branch).Licensed r.Grants r.Always := by
  rw [ClientRequest.callService]
  rcases hs : r.storageBranch branch with _ | method
  · rcases hm : mailBranch r.env r.text branch with _ | p
    · exact licensed_serveAdmin
    · exact (licensed_mailBranch hm).bind fun _ => trivial
  · exact licensed_forUser hs _

/-- The files of the directory `web_pages` are read without a call. -/
theorem licensed_pages {file : Bytes → Bytes} {p : Handler Bytes}
    (hp : p = getPage file r.text ∨ p = headPage file r.text) :
    (sending p).Licensed r.Grants r.Always := by
  refine (Prog.Uses.licensed ?_).bind fun _ => trivial
  rcases hp with rfl | rfl
  · rw [getPage]
    split
    · dsimp only
      split_ifs <;> exact trivial
    · exact trivial
  · rw [headPage]
    split
    · dsimp only
      split_ifs <;> exact trivial
    · exact trivial

/-- **A request does what it may, and what it has been granted.** -/
theorem licensed_serve (r : ClientRequest) : r.serve.Licensed r.Grants r.Always := by
  rw [ClientRequest.serve]
  rcases hbranch : clientConnection r.text with _ | branch
  · exact trivial
  · refine Prog.Licensed.bind ?_ fun _ => trivial
    rw [ClientRequest.serveBranch.eq_def]
    split
    · exact (licensed_serveCredentials hbranch).bind fun _ => trivial
    · exact (licensed_serveSignup hbranch).bind fun _ => trivial
    · exact (licensed_serveChangePassword hbranch).bind fun _ => trivial
    · exact (licensed_serveLogout hbranch).bind fun _ => trivial
    · exact trivial
    · exact licensed_pages (Or.inl rfl)
    · exact licensed_pages (Or.inr rfl)
    · exact trivial
    · exact licensed_callService branch

end Branches

/-! ### Everybody at once -/

/-- A client at work: a request that a front end serves, or a connection of the mail server. -/
inductive Party where
  /-- A request. -/
  | browser (r : ClientRequest)
  /-- A connection of the mail server, with what its calls of `recv` return. -/
  | mailClient (extraCreditNonLocal : Bool) (moments : ℕ → Smtp.Moment) (received : List Bytes)

/-- What is done for a client. -/
def Party.handler : Party → Handler (Option Response)
  | .browser r => r.serve
  | .mailClient extraCreditNonLocal moments received => do
    let _ ← Prog.each Smtp.Output.calls (Smtp.handleClient extraCreditNonLocal moments received)
    return none

/-- What is granted to a client. -/
def Party.Grants : Party → Call → Bytes → Call → Prop
  | .browser r => r.Grants
  | .mailClient _ _ _ => fun _ _ _ => False

/-- What a client may do in any case. -/
def Party.Always : Party → Call → Prop
  | .browser r => r.Always
  | .mailClient _ _ _ => Call.On MailRow

theorem Party.licensed (p : Party) : p.handler.Licensed p.Grants p.Always := by
  cases p with
  | browser r => exact licensed_serve r
  | mailClient extraCreditNonLocal moments received =>
    refine (Prog.Uses.each fun o _ => onMailRow_calls o).licensed.bind fun _ => trivial

/-- The store, and what is left of what is done for each client. -/
abbrev Service (ι : Type) := Config ι Call Bytes Abort Tablet (Option Response)

section Interleavings

variable {ι : Type} [DecidableEq ι] {master : Master}

/-- All clients are about to be served. -/
def Service.start (kvs : Tablet) (parties : ι → Party) : Service ι :=
  Config.start kvs fun i => (parties i).handler

/-- The states that come after a state. -/
abbrev Service.Leads (master : Master) : Service ι → Service ι → Prop :=
  Config.Leads (Call.exec master)

variable {kvs : Tablet} {parties : ι → Party} {s : Service ι} {i : ι} {c : Call}
  {k : Bytes → Handler (Option Response)}

/-- At some moment before the state `s`, the store had the property `P`. -/
def Once (master : Master) (start s : Service ι) (P : Tablet → Prop) : Prop :=
  ∃ t, Service.Leads master start t ∧ Service.Leads master t s ∧ P t.store

theorem Once.mono {start : Service ι} {P Q : Tablet → Prop} (h : Once master start s P)
    (hPQ : ∀ kvs, P kvs → Q kvs) : Once master start s Q := by
  obtain ⟨t, ht, hts, hP⟩ := h
  exact ⟨t, ht, hts, hPQ _ hP⟩

/-- **A call of a client** is one it may make in any case, or a browser's that a text which the
store held once has granted. -/
theorem call_cases (h : Service.Leads master (Service.start kvs parties) s)
    (hc : s.progs i = .call c k) :
    (parties i).Always c ∨ ∃ r row column text, parties i = .browser r ∧
      Once master (Service.start kvs parties) s (fun kvs => kvs.text row column = text) ∧
      r.Grants (.get row column) text c := by
  have h₀ : ∀ j, ((Service.start kvs parties).progs j).Licensed (parties j).Grants
      (parties j).Always := fun j => (parties j).licensed
  rcases Config.exists_grant h₀ h hc with halways | ⟨t, d, k', ht, hts, hd, hgrant⟩
  · exact Or.inl halways
  · rcases hp : parties i with r | ⟨e, m, recvs⟩
    · rw [hp] at hgrant
      have hstep : Service.Leads master t (t.step (Call.exec master) i) :=
        (Runs.Reaches.refl t).tail trivial
      refine Or.inr ⟨r, ?_⟩
      rcases d with key | ⟨row, column⟩ | u
      · cases hgrant
      · exact ⟨row, column, _, rfl, ⟨t, ht, hstep.trans hts, rfl⟩, hgrant⟩
      · cases hgrant
    · rw [hp] at hgrant
      exact hgrant.elim

/-- **The changes that are authorized**, of a cell with a value before and after: those of a
login that names the password which the user had once, of a logout that names the session, of
the list of active users by either; those of a signup when there was no password that could be
read, and of a change of the password that names the one before; of the files of the user whom
the session has named; and of the mailboxes. -/
inductive Authorized (master : Master) (parties : ι → Party) (start s : Service ι) (i : ι) :
    Bytes × Bytes → Option Bytes → Option Bytes → Prop where
  | login {r : ClientRequest} {u p : Bytes} {n : ℕ} {before : Option Bytes}
      (hr : parties i = .browser r) (h : r.AsksLogin u p) (hn : n ∈ r.draws)
      (hread : Once master start s fun kvs => kvs.cells (passwordCell u) = some p) :
      Authorized master parties start s i (sessionRow, decimal n) before (some u)
  | logout {r : ClientRequest} {before : Option Bytes} (hr : parties i = .browser r)
      (h : clientConnection r.text = some .logout) :
      Authorized master parties start s i (sessionRow, r.cookie) before none
  | list {r : ClientRequest} {before after : Option Bytes} (hr : parties i = .browser r)
      (h : r.KeepsList) (hv : ∀ v, after = some v → ClosedList v) :
      Authorized master parties start s i (sessionRow, activeUsersColumn) before after
  | signup {r : ClientRequest} {u p : Bytes} {before : Option Bytes} (hr : parties i = .browser r)
      (h : r.AsksSignup u p) (hread : Once master start s fun kvs =>
        ∀ q, kvs.cells (passwordCell u) = some q → isErr q = true) :
      Authorized master parties start s i (passwordCell u) before (some p)
  | change {r : ClientRequest} {u old new : Bytes} (hr : parties i = .browser r)
      (h : r.AsksChange u old new) :
      Authorized master parties start s i (passwordCell u) (some old) (some new)
  | files {r : ClientRequest} {u column : Bytes} {before after : Option Bytes}
      (hr : parties i = .browser r) (hne : u ≠ [])
      (hread : Once master start s fun kvs => kvs.cells (sessionRow, r.cookie) = some u) :
      Authorized master parties start s i (storageRow u, column) before after
  | mail {row column : Bytes} {before after : Option Bytes} (h : MailRow row) :
      Authorized master parties start s i (row, column) before after

/-- A text that does not read as an error is in its cell. -/
theorem cells_of_text {kvs : Tablet} {row column v : Bytes} (h : kvs.text row column = v)
    (hv : isErr v = false) : kvs.cells (row, column) = some v := by
  rcases hcell : kvs.cells (row, column) with _ | w
  · have herr := Tablet.isErr_of_none hcell
    rw [h, hv] at herr
    exact absurd herr (by simp)
  · rw [← Tablet.text_of_some hcell, h]

/-- What a client does to a cell it may do in any case. -/
theorem authorized_of_always {start : Service ι} {w : Update} {before : Option Bytes}
    (h : (parties i).Always (.update w)) :
    Authorized master parties start s i w.cell before w.result := by
  rcases hp : parties i with r | ⟨e, m, recvs⟩
  · rw [hp] at h
    cases h with
    | list hkeeps hcell hv =>
      rw [hcell]
      exact .list hp hkeeps hv
    | logout hlogout => exact .logout hp hlogout
    | mail hmail => exact .mail hmail
  · rw [hp] at h
    exact .mail h

/-- **Every change is authorized.** Whatever texts are sent to the front ends and to the mail
server, and in whatever order the calls of all that are being served follow each other: when a
call changes a cell, the client it is made for is authorized to change it in this way. -/
theorem change_authorized (h : Service.Leads master (Service.start kvs parties) s)
    {cell : Bytes × Bytes}
    (hne : (s.step (Call.exec master) i).store.cells cell ≠ s.store.cells cell) :
    Authorized master parties (Service.start kvs parties) s i cell (s.store.cells cell)
      ((s.step (Call.exec master) i).store.cells cell) := by
  rcases hprog : s.progs i with a | e | ⟨c, k⟩
  · rw [Config.step_of_done hprog] at hne
    exact absurd rfl hne
  · rw [Config.step_of_fail hprog] at hne
    exact absurd rfl hne
  · rw [Config.step_of_call hprog] at hne ⊢
    dsimp only at hne ⊢
    rcases Call.cells_exec master s.store c with hsame | ⟨w, rfl, hw⟩
    · exact absurd (by rw [hsame]) hne
    · -- a write changes its own cell
      obtain rfl : cell = w.cell := by
        by_contra hcell
        exact hne (by rw [hw, Function.update_of_ne hcell])
      have hafter : (Call.exec master (.update w) s.store).2.cells w.cell = w.result := by
        rw [hw, Function.update_self]
      rcases call_cases h hprog with halways | ⟨r, row, column, text, hp, hread, hgrant⟩
      · rw [hafter]
        exact authorized_of_always halways
      · cases hgrant with
        | files hu herr hrow =>
          have hcell : w.cell = (storageRow text, w.column) := Prod.ext hrow rfl
          rw [hcell]
          exact .files hp hu (hread.mono fun kvs ht => cells_of_text ht herr)
        | login hasks hplain hn =>
          rw [hafter]
          exact .login hp hasks hn (hread.mono fun kvs ht => cells_of_text ht hplain.2)
        | signup hasks herr =>
          rw [hafter]
          refine .signup hp hasks (hread.mono fun kvs ht q hq => ?_)
          rw [← Tablet.text_of_some hq, ht]
          exact herr
        | @change u _ new hasks =>
          have hbefore : s.store.cells (passwordCell u) = some text := by
            by_contra hother
            exact hne (by rw [Call.exec_cput_of_ne master s.store hother])
          rw [hafter]
          show Authorized master parties (Service.start kvs parties) s i (passwordCell u)
            (s.store.cells (passwordCell u)) (some new)
          rw [hbefore]
          exact .change hp hasks

/-- A call on the row of a user's files is made for a request whose session has named the
user. -/
theorem once_session_of_call (h : Service.Leads master (Service.start kvs parties) s)
    (hc : s.progs i = .call c k) {u : Bytes} (hrow : c.row = some (storageRow u))
    (hu : ¬NamedLikeMailbox u) :
    ∃ r, parties i = .browser r ∧ u ≠ [] ∧ Once master (Service.start kvs parties) s fun kvs =>
      kvs.cells (sessionRow, r.cookie) = some u := by
  have hmail : ¬c.On MailRow := by
    intro hon
    rcases c with key | ⟨row, column⟩ | w
    · cases hrow
    · exact not_mailRow_storageRow hu (Option.some.inj hrow ▸ hon)
    · exact not_mailRow_storageRow hu (Option.some.inj hrow ▸ hon)
  have hsession : c.row ≠ some sessionRow := by
    rw [hrow]
    exact fun heq => sessionRow_ne_storageRow u (Option.some.inj heq).symm
  have hpassword : ∀ v, c.row ≠ some (userinfo v) := by
    intro v hv
    have heq : storageRow u = userinfo v := Option.some.inj (hrow.symm.trans hv)
    exact storageRow_ne_userinfo u v heq
  rcases call_cases h hc with halways | ⟨r, row, column, text, hp, hread, hgrant⟩
  · rcases hp : parties i with r | ⟨e, m, recvs⟩
    · rw [hp] at halways
      cases halways with
      | lookup key => cases hrow
      | readSession column => exact absurd rfl hsession
      | readPassword v => exact absurd rfl (hpassword v)
      | list hkeeps hcell hv =>
        exact absurd (congrArg some (Prod.mk.inj hcell).1) hsession
      | logout hlogout => exact absurd rfl hsession
      | mail hon => exact absurd hon hmail
    · rw [hp] at halways
      exact absurd halways hmail
  · cases hgrant with
    | files hne herr hon =>
      obtain rfl : text = u := by
        have heq : some (storageRow u) = some (storageRow text) := by
          rw [← hrow]
          rcases c with key | ⟨row, column⟩ | w
          · cases hrow
          · exact congrArg some hon
          · exact congrArg some hon
        exact (List.append_cancel_right (Option.some.inj heq)).symm
      exact ⟨r, hp, hne, hread.mono fun kvs ht => cells_of_text ht herr⟩
    | login hasks hplain hn => exact absurd rfl hsession
    | signup hasks herr => exact absurd rfl (hpassword _)
    | change hasks => exact absurd rfl (hpassword _)

/-! ### Whose session it is -/

/-- A cell of the sessions is changed by a login, by a logout, or it is the list of active
users. -/
theorem Authorized.session {start : Service ι} {column : Bytes} {before after : Option Bytes}
    (h : Authorized master parties start s i (sessionRow, column) before after) :
    (∃ r u p n, parties i = .browser r ∧ r.AsksLogin u p ∧ n ∈ r.draws ∧ column = decimal n ∧
        after = some u ∧ Once master start s fun kvs => kvs.cells (passwordCell u) = some p) ∨
      after = none ∨ column = activeUsersColumn ∧ ∀ v, after = some v → ClosedList v := by
  generalize hcell : (sessionRow, column) = cell at h
  cases h with
  | login hr hasks hn hread =>
    exact Or.inl ⟨_, _, _, _, hr, hasks, hn, (Prod.mk.inj hcell).2, rfl, hread⟩
  | logout hr hlogout => exact Or.inr (Or.inl rfl)
  | list hr hkeeps hv => exact Or.inr (Or.inr ⟨(Prod.mk.inj hcell).2, hv⟩)
  | signup hr hasks hread => exact absurd (Prod.mk.inj hcell).1 (sessionRow_ne_userinfo _)
  | change hr hasks => exact absurd (Prod.mk.inj hcell).1 (sessionRow_ne_userinfo _)
  | files hr hne hread => exact absurd (Prod.mk.inj hcell).1 (sessionRow_ne_storageRow _)
  | mail hmail => exact absurd ((Prod.mk.inj hcell).1 ▸ hmail) not_mailRow_sessionRow

variable (h₀ : ∀ column, kvs.cells (sessionRow, column) = none)

include h₀

/-- What a cell of the sessions holds, somebody was authorized to store there. -/
theorem exists_authorized (h : Service.Leads master (Service.start kvs parties) s)
    {column : Bytes} {v : Bytes} (hv : s.store.cells (sessionRow, column) = some v) :
    ∃ t j before, Service.Leads master (Service.start kvs parties) t ∧ Service.Leads master t s ∧
      Authorized master parties (Service.start kvs parties) t j (sessionRow, column) before
        (some v) := by
  have hstart : ¬(Service.start kvs parties).store.cells (sessionRow, column) = some v := by
    intro hsome
    exact absurd ((h₀ column).symm.trans hsome) (by simp)
  obtain ⟨t, j, c, k, ht, hts, hc, hnot, hyes⟩ :=
    Config.exists_change (P := fun kvs : Tablet => kvs.cells (sessionRow, column) = some v)
      h hstart hv
  have hstore : (t.step (Call.exec master) j).store = (Call.exec master c t.store).2 := by
    rw [Config.step_of_call hc]
  have hne : (t.step (Call.exec master) j).store.cells (sessionRow, column) ≠
      t.store.cells (sessionRow, column) := by
    rw [hstore, hyes]
    exact fun heq => hnot heq.symm
  have hauth := change_authorized ht hne
  rw [hstore, hyes] at hauth
  have hstep : Service.Leads master t (t.step (Call.exec master) j) :=
    (Runs.Reaches.refl t).tail trivial
  exact ⟨t, j, _, ht, hstep.trans hts, hauth⟩

/-- **A session was handed out for the password of its user.** -/
theorem exists_login (h : Service.Leads master (Service.start kvs parties) s) {column u : Bytes}
    (hcolumn : column ≠ activeUsersColumn) (hu : s.store.cells (sessionRow, column) = some u) :
    ∃ j q p, parties j = .browser q ∧ q.AsksLogin u p ∧ (∃ n ∈ q.draws, column = decimal n) ∧
      Once master (Service.start kvs parties) s fun kvs =>
        kvs.cells (passwordCell u) = some p := by
  obtain ⟨t, j, before, ht, hts, hauth⟩ := exists_authorized h₀ h hu
  rcases hauth.session with ⟨r, v, p, n, hr, hasks, hn, hdec, hv, t', ht', htt, hp⟩ | hnone | hlist
  · obtain rfl := Option.some.inj hv
    exact ⟨j, r, p, hr, hasks, ⟨n, hn, hdec⟩, t', ht', htt.trans hts, hp⟩
  · exact absurd hnone (by simp)
  · exact absurd hlist.1 hcolumn

/-- The list of active users ends with a semicolon. -/
theorem closedList_activeUsers (h : Service.Leads master (Service.start kvs parties) s) {v : Bytes}
    (hv : s.store.cells (sessionRow, activeUsersColumn) = some v) : ClosedList v := by
  obtain ⟨t, j, before, ht, hts, hauth⟩ := exists_authorized h₀ h hv
  rcases hauth.session with ⟨r, u, p, n, hr, hasks, hn, hdec, -⟩ | hnone | ⟨-, hlist⟩
  · exact absurd hdec.symm (decimal_ne_activeUsers n)
  · exact absurd hnone (by simp)
  · exact hlist v rfl

/-- **Where a session comes from**: a login for its user, or the list of active users. -/
theorem origin_of_session (h : Service.Leads master (Service.start kvs parties) s)
    {column u : Bytes} (hne : u ≠ []) (hu : s.store.cells (sessionRow, column) = some u) :
    (column = activeUsersColumn ∧ [59] <:+ u) ∨ ∃ j q p, parties j = .browser q ∧
      q.AsksLogin u p ∧ (∃ n ∈ q.draws, column = decimal n) ∧
        Once master (Service.start kvs parties) s fun kvs =>
          kvs.cells (passwordCell u) = some p := by
  by_cases hcolumn : column = activeUsersColumn
  · rw [hcolumn] at hu
    exact Or.inl ⟨hcolumn, (closedList_activeUsers h₀ h hu).resolve_left hne⟩
  · exact Or.inr (exists_login h₀ h hcolumn hu)

/-- **Files are behind a password.** Whatever texts are sent to the front ends and to the mail
server, and in whatever order the calls of all that are being served follow each other: a call
on the row of a user's files, be it to read or to write, is made for a request whose cookie was
a session of the user at some moment before – and that session was handed out to a request that
named the password which the user had at some moment before that. The exceptions are the cookie
`active-users`, for users whose names end with a semicolon, and users whose names begin like
mailboxes. -/
theorem files_behind_password (h : Service.Leads master (Service.start kvs parties) s)
    (hc : s.progs i = .call c k) {u : Bytes} (hrow : c.row = some (storageRow u))
    (hu : ¬NamedLikeMailbox u) :
    ∃ r t, parties i = .browser r ∧ Service.Leads master (Service.start kvs parties) t ∧
      Service.Leads master t s ∧ t.store.cells (sessionRow, r.cookie) = some u ∧
      ((r.cookie = activeUsersColumn ∧ [59] <:+ u) ∨
        ∃ j q p, parties j = .browser q ∧ q.AsksLogin u p ∧
          (∃ n ∈ q.draws, r.cookie = decimal n) ∧
          Once master (Service.start kvs parties) t fun kvs =>
            kvs.cells (passwordCell u) = some p) := by
  obtain ⟨r, hr, hne, t, ht, hts, hcell⟩ := once_session_of_call h hc hrow hu
  exact ⟨r, t, hr, ht, hts, hcell, origin_of_session h₀ ht hne hcell⟩

end Interleavings

/-! ### Three requests -/

/-- A request with nothing special around it. -/
def plainRequest (text : String) (draws : List ℕ) : ClientRequest where
  text := ascii text
  later := []
  draws := draws
  env := ⟨[], false⟩
  file := fun _ => []
  fuel := 0

/-- A signup, a login that draws the session 7, and a look at the files with it. -/
def threeRequests : ℕ → Party
  | 0 => .browser (plainRequest
      "POST /signup HTTP/1.1\r\nConnection: keep-alive\r\n\r\nusername=ann&password=one" [])
  | 1 => .browser (plainRequest
      "POST /credentials HTTP/1.1\r\nConnection: keep-alive\r\n\r\nusername=ann&password=one" [7])
  | _ => .browser (plainRequest
      "GET /storage HTTP/1.1\r\nConnection: keep-alive\r\nCookie: session_id=7\r\n\r\n" [])

/-- The state after the calls of a schedule. -/
def threeRequestsAfter (schedule : List ℕ) : Service ℕ :=
  schedule.foldl (Config.step (Call.exec Master.first)) (Service.start ∅ threeRequests)

example : (threeRequestsAfter []).store.cells (passwordCell (ascii "ann")) = none := by
  decide +kernel

theorem leads_threeRequestsAfter (schedule : List ℕ) :
    Service.Leads Master.first (Service.start ∅ threeRequests) (threeRequestsAfter schedule) :=
  Runs.Reaches.foldl schedule (fun _ _ _ => trivial) _

/-- The third call of the signup sets the password, as it is authorized to. -/
theorem change_authorized_signup :
    Authorized Master.first threeRequests (Service.start ∅ threeRequests)
      (threeRequestsAfter [0, 0]) 0 (passwordCell (ascii "ann")) none (some (ascii "one")) := by
  have hbefore : (threeRequestsAfter [0, 0]).store.cells (passwordCell (ascii "ann")) = none := by
    decide +kernel
  have hafter : ((threeRequestsAfter [0, 0]).step (Call.exec Master.first) 0).store.cells
      (passwordCell (ascii "ann")) = some (ascii "one") := by
    decide +kernel
  have hne : ((threeRequestsAfter [0, 0]).step (Call.exec Master.first) 0).store.cells
      (passwordCell (ascii "ann")) ≠
        (threeRequestsAfter [0, 0]).store.cells (passwordCell (ascii "ann")) := by
    rw [hbefore, hafter]
    simp
  have hauth := change_authorized (leads_threeRequestsAfter [0, 0]) hne
  rwa [hbefore, hafter] at hauth

/-- The cookie of the third request is not the name of the list of active users. -/
theorem cookie_threeRequests {r : ClientRequest} (hr : threeRequests 2 = .browser r) :
    r.cookie ≠ activeUsersColumn := by
  obtain rfl := Party.browser.inj hr
  decide +kernel

/-- The row of the files is read in the end, on behalf of a session that was handed out for the
password. -/
theorem files_behind_password_list : ∃ j q p, threeRequests j = .browser q ∧
    q.AsksLogin (ascii "ann") p := by
  have hnext : ((threeRequestsAfter (List.replicate 3 0 ++ List.replicate 8 1 ++
      List.replicate 3 2)).progs 2).next = some (.get (storageRow (ascii "ann")) (metaCol [])) := by
    decide +kernel
  obtain ⟨k, hk⟩ := Prog.exists_call_of_next hnext
  obtain ⟨r, t, hr, -, -, -, hlist | ⟨j, q, p, hq, hasks, -⟩⟩ :=
    files_behind_password (fun _ => rfl) (leads_threeRequestsAfter _) hk rfl (by decide)
  · exact absurd hlist.1 (cookie_threeRequests hr)
  · exact ⟨j, q, p, hq, hasks⟩

end PennCloud
