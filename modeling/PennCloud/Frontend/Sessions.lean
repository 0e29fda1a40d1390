import PennCloud.Lib.Runs
import PennCloud.Frontend.Accounts

/-!
# Sessions

A login draws a number that is not in use, stores the user's name under it and
hands it out as a cookie (`frontend/http_server.cc`). All sessions are columns of
one row, `session-ids`, and so is `active-users`, the list of who is logged in.
A request is let in when the column its cookie names holds a name.

So a cookie that reads `active-users` is let in as a user whose name is the whole
list, and a user whose name begins with `ERR` is never let in, because the stored
name is taken for an error. Apart from these two, sessions are sound and
complete: `PennCloud.session_iff` – a cookie leads to a user exactly when a login
of that user has handed it out and it has not been logged out since.

The generator `rand()` is not modelled: a login is given the values it draws, and
a login that has used them up is still drawing.
-/

namespace PennCloud

open Wire Calls Text

/-! ### The operations -/

/-- The row of the sessions. -/
def sessionRow : Bytes := ascii "session-ids"

/-- The column of the list of active users. -/
def activeUsersColumn : Bytes := ascii "active-users"

/-- `getUsernameFromSession`: the user a session belongs to, or the empty name. -/
def getUsernameFromSession (sessionId : Bytes) : Handler Bytes := do
  let worker ← lookup sessionRow
  if isErr worker then return []
  else
    let username ← Get sessionRow sessionId
    if isErr username then return []
    else return username

/-- The loop of `generateSessionCookie`, on the values `rand()` returns: it ends
with the first number whose column is missing, empty or reads as an error. -/
def drawSessionId : List ℕ → Handler Bytes
  | [] => .fail .running
  | n :: draws => do
    let first ← Get sessionRow (decimal n)
    if first = [] then return decimal n
    else
      -- the column is read once more for the second half of the test
      let second ← Get sessionRow (decimal n)
      if isErr second then return decimal n
      else drawSessionId draws

/-- `generateSessionCookie`. -/
def generateSessionCookie (username : Bytes) (draws : List ℕ) : Handler Bytes := do
  let worker ← lookup sessionRow
  if isErr worker then return ascii "error"
  else
    let sid ← drawSessionId draws
    let activeUsers ← Get sessionRow activeUsersColumn
    if !isErr activeUsers then
      let updatedActiveUsers :=
        activeUsers ++ ascii ";" ++ username ++ ascii ":" ++ sid ++ ascii ";"
      let _ ← Put sessionRow sid username
      let _ ← CPut sessionRow activeUsersColumn activeUsers updatedActiveUsers
      return sid
    else
      let updatedActiveUsers := username ++ ascii ":" ++ sid ++ ascii ";"
      let _ ← Put sessionRow sid username
      let _ ← Put sessionRow activeUsersColumn updatedActiveUsers
      return sid

/-- What follows the first colon of an entry, if it has one. -/
def sessionOfEntry (userinfo : Bytes) : Option Bytes :=
  if 58 ∈ userinfo then some ((userinfo.dropWhile (· ≠ 58)).drop 1) else none

/-- The loop of `handleLogout` over the entries of the list: the entries are kept
up to the one of the session, and dropped from there on. -/
def keepUntil (sid : Bytes) : Bool → Bytes → List Bytes → Bytes
  | _, updated, [] => updated
  | found, updated, userinfo :: rest =>
    let found := found || decide (sessionOfEntry userinfo = some sid)
    if found then keepUntil sid found updated rest
    else keepUntil sid found (updated ++ userinfo ++ ascii ";") rest

/-- `handleLogout`; the name of the user is not looked at. -/
def handleLogout (sid _username : Bytes) : Handler Unit := do
  let worker ← lookup sessionRow
  if isErr worker then return ()
  else
    let activeUsers ← Get sessionRow activeUsersColumn
    let updatedActiveUsers := keepUntil sid false [] (getlines 59 activeUsers)
    let _ ← Delete sessionRow sid
    let _ ← CPut sessionRow activeUsersColumn activeUsers updatedActiveUsers
    return ()

/-- The name of the column is not a number. -/
theorem decimal_ne_activeUsers (n : ℕ) : decimal n ≠ activeUsersColumn := by
  intro h
  have hmem : (97 : UInt8) ∈ decimal n := by
    rw [h]
    decide
  exact absurd (isDigit_of_mem_decimal hmem).2 (by decide)

/-! ### What they return and do -/

section Runs

variable {master : Master} (kvs : Tablet)

/-- A number a login may take: its column is missing, empty or reads as an
error. -/
def Tablet.FreeSession (kvs : Tablet) (sid : Bytes) : Prop :=
  kvs.text sessionRow sid = [] ∨ isErr (kvs.text sessionRow sid) = true

/-- The draw leaves the rows alone and ends with a free number. -/
theorem run_drawSessionId (draws : List ℕ) :
    (drawSessionId draws).run (Call.exec master) kvs = (.error .running, kvs) ∨
      ∃ n, kvs.FreeSession (decimal n) ∧
        (drawSessionId draws).run (Call.exec master) kvs = (.ok (decimal n), kvs) := by
  induction draws with
  | nil => exact Or.inl rfl
  | cons n draws ih =>
    rw [drawSessionId]
    simp only [run_Get_bind]
    split_ifs with hfirst
    · exact Or.inr ⟨n, Or.inl hfirst, rfl⟩
    · rw [run_Get_bind]
      split_ifs with hsecond
      · exact Or.inr ⟨n, Or.inr hsecond, rfl⟩
      · exact ih

variable (hup : master.Up)

include hup

theorem run_getUsernameFromSession (c : Bytes) :
    (getUsernameFromSession c).run (Call.exec master) kvs =
      (.ok (if isErr (kvs.text sessionRow c) then [] else kvs.text sessionRow c), kvs) := by
  have hl := isErr_lookup hup sessionRow
  simp only [getUsernameFromSession, run_lookup_bind, hl, Bool.false_eq_true, if_false,
    run_Get_bind]
  split_ifs <;> rfl

/-- **A login** ends with a free number, under which it has stored the name; it
changes no other session. -/
theorem run_generateSessionCookie (u : Bytes) (draws : List ℕ) :
    (generateSessionCookie u draws).run (Call.exec master) kvs = (.error .running, kvs) ∨
      ∃ n kvs', kvs.FreeSession (decimal n) ∧
        (generateSessionCookie u draws).run (Call.exec master) kvs = (.ok (decimal n), kvs') ∧
        ∀ c, c ≠ activeUsersColumn → kvs'.cells (sessionRow, c) =
          Function.update kvs.cells (sessionRow, decimal n) (some u) (sessionRow, c) := by
  have hl := isErr_lookup hup sessionRow
  simp only [generateSessionCookie, run_lookup_bind, hl, Bool.false_eq_true, if_false]
  rcases @run_drawSessionId master kvs draws with hrun | ⟨n, hfree, hrun⟩
  · exact Or.inl (Prog.run_bind_of_error _ hrun)
  · rw [Prog.run_bind_of_ok _ hrun, run_Get_bind]
    have hother : ∀ c, c ≠ activeUsersColumn → (sessionRow, c) ≠ (sessionRow, activeUsersColumn) :=
      fun c hc h => hc (Prod.mk.inj h).2
    split_ifs with he
    · rw [run_Put_bind, run_CPut_bind]
      refine Or.inr ⟨n, _, hfree, rfl, fun c hc => ?_⟩
      rw [Call.cells_exec_of_ne master _ (hother c hc), Tablet.cells_put]
    · rw [run_Put_bind, run_Put_bind]
      refine Or.inr ⟨n, _, hfree, rfl, fun c hc => ?_⟩
      rw [Tablet.cells_put, Function.update_of_ne (hother c hc), Tablet.cells_put]

/-- **A logout** removes the session it names and no other. -/
theorem cells_handleLogout (sid u : Bytes) {c : Bytes} (hc : c ≠ activeUsersColumn) :
    ((handleLogout sid u).run (Call.exec master) kvs).2.cells (sessionRow, c) =
      Function.update kvs.cells (sessionRow, sid) none (sessionRow, c) := by
  have hl := isErr_lookup hup sessionRow
  have hne : (sessionRow, c) ≠ (sessionRow, activeUsersColumn) := fun h => hc (Prod.mk.inj h).2
  simp only [handleLogout, run_lookup_bind, hl, Bool.false_eq_true, if_false, run_Get_bind,
    run_Delete_bind, run_CPut_bind, Prog.run_pure]
  rw [Call.cells_exec_of_ne master _ hne, Tablet.cells_delete]

end Runs

/-! ### Logins and logouts -/

/-- The rows, and the sessions that have been handed out and not been logged out
since, each with its user. -/
structure Sessions where
  /-- The rows of the store. -/
  rows : Tablet
  /-- The sessions, with the name each was handed out to. -/
  issued : List (Bytes × Bytes)

/-- A login or a logout. -/
inductive SessionEvent where
  /-- A login of `username`, with the values drawn. -/
  | login (username : Bytes) (draws : List ℕ)
  /-- A logout of the session `sid`. -/
  | logout (sid username : Bytes)

/-- One login or logout. -/
def Sessions.step (master : Master) (s : Sessions) : SessionEvent → Sessions
  | .login u draws =>
    match (generateSessionCookie u draws).run (Call.exec master) s.rows with
    | (.ok sid, kvs) => ⟨kvs, (sid, u) :: s.issued⟩
    | (.error _, kvs) => ⟨kvs, s.issued⟩
  | .logout sid u =>
    ⟨((handleLogout sid u).run (Call.exec master) s.rows).2, s.issued.filter fun p => p.1 ≠ sid⟩

/-- A login of a user whose name does not read as an error. -/
def SessionEvent.Named : Sessions → SessionEvent → Prop
  | _, .login u _ => isErr u = false
  | _, .logout _ _ => True

/-- **The cookie `c` leads to exactly the users it stands for.** -/
def Sessions.SoundAt (master : Master) (s : Sessions) (c : Bytes) : Prop :=
  ∀ u, u ≠ [] → (returns master s.rows (getUsernameFromSession c) u ↔ (c, u) ∈ s.issued)

/-- The list of active users reads as no name: it is missing, empty, or begins
like an error. -/
def Sessions.NoActiveUsers (s : Sessions) : Prop :=
  s.rows.FreeSession activeUsersColumn

/-- The invariant of logins and logouts. -/
structure Sessions.Inv (s : Sessions) : Prop where
  /-- A session in the rows has been handed out to the user it names. -/
  sound : ∀ c v, c ≠ activeUsersColumn → s.rows.cells (sessionRow, c) = some v → (c, v) ∈ s.issued
  /-- A session that has been handed out is in the rows. -/
  complete : ∀ c u, (c, u) ∈ s.issued → u ≠ [] → s.rows.cells (sessionRow, c) = some u
  /-- Sessions are numbers. -/
  number : ∀ c u, (c, u) ∈ s.issued → ∃ n, c = decimal n
  /-- No name reads as an error. -/
  named : ∀ c u, (c, u) ∈ s.issued → isErr u = false

section Steps

variable {master : Master} (hup : master.Up) {s : Sessions} (h : s.Inv)

include h

/-- A free number is nobody's session, unless somebody without a name. -/
theorem Sessions.Inv.eq_nil_of_free {c u : Bytes} (hfree : s.rows.FreeSession c)
    (hmem : (c, u) ∈ s.issued) : u = [] := by
  by_contra hne
  have htext := Tablet.text_of_some (h.complete c u hmem hne)
  rcases hfree with hnil | herr
  · exact hne (htext.symm.trans hnil)
  · rw [htext, h.named c u hmem] at herr
    exact absurd herr (by simp)

theorem Sessions.Inv.login {u : Bytes} (hu : isErr u = false) {n : ℕ} {kvs : Tablet}
    (hfree : s.rows.FreeSession (decimal n))
    (hcells : ∀ c, c ≠ activeUsersColumn → kvs.cells (sessionRow, c) =
      Function.update s.rows.cells (sessionRow, decimal n) (some u) (sessionRow, c)) :
    Sessions.Inv ⟨kvs, (decimal n, u) :: s.issued⟩ := by
  have hne : ∀ {c}, c ≠ decimal n → (sessionRow, c) ≠ (sessionRow, decimal n) :=
    fun hc heq => hc (Prod.mk.inj heq).2
  refine ⟨fun c v hc hv => ?_, fun c v hmem hv => ?_, fun c v hmem => ?_, fun c v hmem => ?_⟩
  · rw [hcells c hc] at hv
    rcases eq_or_ne c (decimal n) with rfl | hcn
    · rw [Function.update_self] at hv
      rw [← Option.some.inj hv]
      exact List.mem_cons_self
    · rw [Function.update_of_ne (hne hcn)] at hv
      exact List.mem_cons_of_mem _ (h.sound c v hc hv)
  · rcases List.mem_cons.mp hmem with heq | hmem
    · obtain ⟨rfl, rfl⟩ := Prod.mk.inj heq
      show kvs.cells _ = _
      rw [hcells _ (decimal_ne_activeUsers n), Function.update_self]
    · have hcn : c ≠ decimal n := by
        rintro rfl
        exact hv (h.eq_nil_of_free hfree hmem)
      obtain ⟨m, rfl⟩ := h.number c v hmem
      show kvs.cells _ = _
      rw [hcells _ (decimal_ne_activeUsers m), Function.update_of_ne (hne hcn)]
      exact h.complete _ v hmem hv
  · rcases List.mem_cons.mp hmem with heq | hmem
    · exact ⟨n, (Prod.mk.inj heq).1⟩
    · exact h.number c v hmem
  · rcases List.mem_cons.mp hmem with heq | hmem
    · rw [(Prod.mk.inj heq).2]
      exact hu
    · exact h.named c v hmem

include hup

theorem Sessions.Inv.logout (sid u : Bytes) : (s.step master (.logout sid u)).Inv := by
  have hmem_iff : ∀ {c v}, (c, v) ∈ (s.step master (.logout sid u)).issued ↔
      (c, v) ∈ s.issued ∧ c ≠ sid := by
    intro c v
    simp [Sessions.step]
  have hcells : ∀ {c}, c ≠ activeUsersColumn → c ≠ sid →
      (s.step master (.logout sid u)).rows.cells (sessionRow, c) =
        s.rows.cells (sessionRow, c) := by
    intro c hc hcs
    rw [Sessions.step, cells_handleLogout s.rows hup sid u hc, Function.update_of_ne]
    exact fun heq => hcs (Prod.mk.inj heq).2
  refine ⟨fun c v hc hv => ?_, fun c v hmem hv => ?_, fun c v hmem => ?_, fun c v hmem => ?_⟩
  · rcases eq_or_ne c sid with rfl | hcs
    · rw [Sessions.step, cells_handleLogout s.rows hup c u hc, Function.update_self] at hv
      exact absurd hv (by simp)
    · rw [hcells hc hcs] at hv
      exact hmem_iff.mpr ⟨h.sound c v hc hv, hcs⟩
  · obtain ⟨hold, hcs⟩ := hmem_iff.mp hmem
    obtain ⟨m, rfl⟩ := h.number c v hold
    rw [hcells (decimal_ne_activeUsers m) hcs]
    exact h.complete _ v hold hv
  · exact h.number c v (hmem_iff.mp hmem).1
  · exact h.named c v (hmem_iff.mp hmem).1

/-- **A login or a logout keeps the invariant.** -/
theorem Sessions.Inv.step (e : SessionEvent) (he : e.Named s) : (s.step master e).Inv := by
  cases e with
  | login u draws =>
    rcases run_generateSessionCookie s.rows hup u draws with hrun | ⟨n, kvs, hfree, hrun, hcells⟩
    · rw [Sessions.step, hrun]
      exact h
    · rw [Sessions.step, hrun]
      exact h.login he hfree hcells
  | logout sid u => exact h.logout hup sid u

/-- A cookie other than `active-users` leads where it should. -/
theorem Sessions.Inv.soundAt {c : Bytes} (hc : c ≠ activeUsersColumn) : s.SoundAt master c := by
  intro u hu
  rw [returns, run_getUsernameFromSession s.rows hup]
  constructor
  · intro hret
    rcases hcell : s.rows.cells (sessionRow, c) with _ | v
    · rw [if_pos (Tablet.isErr_of_none hcell)] at hret
      exact absurd (Except.ok.inj hret) hu.symm
    · have hmem := h.sound c v hc hcell
      rw [Tablet.text_of_some hcell, h.named c v hmem] at hret
      rw [← Except.ok.inj hret]
      exact hmem
  · intro hmem
    rw [Tablet.text_of_some (h.complete c u hmem hu), h.named c u hmem]
    rfl

/-- The cookie `active-users` leads nowhere exactly when the list is not there. -/
theorem Sessions.Inv.soundAt_activeUsers :
    s.SoundAt master activeUsersColumn ↔ s.NoActiveUsers := by
  have hnot : ∀ u, (activeUsersColumn, u) ∉ s.issued := by
    intro u hmem
    obtain ⟨n, hn⟩ := h.number _ u hmem
    exact decimal_ne_activeUsers n hn.symm
  constructor
  · intro hs
    by_contra hno
    obtain ⟨hne, herr⟩ := not_or.mp hno
    refine hnot _ ((hs _ hne).mp ?_)
    rw [returns, run_getUsernameFromSession s.rows hup, if_neg herr]
  · intro hno u hu
    refine ⟨fun hret => ?_, fun hmem => absurd hmem (hnot u)⟩
    rw [returns, run_getUsernameFromSession s.rows hup] at hret
    rcases hno with hnil | herr
    · rw [hnil] at hret
      exact absurd (Except.ok.inj hret) hu.symm
    · rw [if_pos herr] at hret
      exact absurd (Except.ok.inj hret) hu.symm

end Steps

/-- **Sessions are sound and complete, `active-users` apart**: after any logins of
users whose names do not read as errors and any logouts, a cookie leads exactly
to the users it stands for if and only if it is not `active-users`, or that
column holds nothing a name could be read from. -/
theorem session_iff {master : Master} (hup : master.Up) {kvs : Tablet}
    (h0 : ∀ c, kvs.cells (sessionRow, c) = none) {s : Sessions}
    (h : Runs.Reaches (Sessions.step master) SessionEvent.Named ⟨kvs, []⟩ s) (c : Bytes) :
    s.SoundAt master c ↔ c ≠ activeUsersColumn ∨ s.NoActiveUsers := by
  have hinv : s.Inv := by
    refine h.invariant ?_ fun t e ht he => ht.step hup e he
    refine ⟨fun c v _ hv => ?_, fun c u hmem => ?_, fun c u hmem => ?_, fun c u hmem => ?_⟩
    · exact absurd ((h0 c).symm.trans hv) (by simp)
    · exact absurd hmem List.not_mem_nil
    · exact absurd hmem List.not_mem_nil
    · exact absurd hmem List.not_mem_nil
  rcases eq_or_ne c activeUsersColumn with rfl | hc
  · rw [hinv.soundAt_activeUsers hup]
    simp
  · exact ⟨fun _ => Or.inl hc, fun _ => hinv.soundAt hup hc⟩

/-- After a login the number it has drawn is that user's session. -/
theorem session_of_login :
    Sessions.SoundAt Master.first (Sessions.step Master.first ⟨∅, []⟩
      (.login (ascii "ann") [7])) (ascii "7") := by
  have hnamed : SessionEvent.Named ⟨∅, []⟩ (.login (ascii "ann") [7]) :=
    show isErr (ascii "ann") = false by decide
  have hreach : Runs.Reaches (Sessions.step Master.first) SessionEvent.Named ⟨∅, []⟩ _ :=
    (Runs.Reaches.refl _).tail hnamed
  exact (session_iff Master.up_first (fun _ => rfl) hreach _).mpr (Or.inl (by decide))

/-- **The cookie `active-users` is let in** once somebody has logged in. -/
theorem active_users_let_in :
    ¬Sessions.SoundAt Master.first (Sessions.step Master.first ⟨∅, []⟩
      (.login (ascii "ann") [7])) activeUsersColumn := by
  intro h
  have hret : returns Master.first (Sessions.step Master.first ⟨∅, []⟩
      (.login (ascii "ann") [7])).rows (getUsernameFromSession activeUsersColumn)
        (ascii "ann:7;") := rfl
  have hmem := (h (ascii "ann:7;") (by decide)).mp hret
  exact absurd hmem (by decide)

end PennCloud
