import PennCloud.Frontend.Cloud

/-!
# The front end does what it is for

Served one after the other, requests do to the store what `PennCloud.Cloud.Does` says they do
to accounts, sessions and files. `PennCloud.Carries` relates the two: the password of a user is
the cell in the row `<user>-userinfo`, a session the column of `session-ids`, and the row of a
user's files represents the tree. One request keeps it (`PennCloud.Carries.step`), and so does a
run (`PennCloud.server_refines_cloud`).

Each service writes rows of its own (`PennCloud.Frontend.Confinement`), so that a request
leaves alone what it is not about. Users whose names begin like mailboxes are left out, since
mail reaches their rows.
-/

namespace PennCloud

open Wire Calls Text

/-! ### What a program leaves alone -/

section Frames

variable {master : Master} {kvs : Tablet} {R : Bytes → Prop} {α : Type} {p : Handler α}

/-- Rows that a program does not work on stay as they are. -/
theorem OnRows.cells_eq (h : OnRows R p) {row : Bytes} (hrow : ¬R row) (column : Bytes) :
    (p.run (Call.exec master) kvs).2.cells (row, column) = kvs.cells (row, column) := by
  refine Prog.Uses.run (P := fun s : Tablet => s.cells (row, column) = kvs.cells (row, column))
    _ h ?_ rfl
  intro c s hc hs
  rcases c with key | ⟨r, c'⟩ | u
  · exact hs
  · exact hs
  · have hne : (row, column) ≠ u.cell := fun heq => hrow ((Prod.mk.inj heq).1 ▸ hc)
    rw [← hs]
    exact Call.cells_exec_of_ne master s hne

/-- A program that reads only leaves everything as it is. -/
theorem run_of_reads (h : p.Uses Call.Reads) : (p.run (Call.exec master) kvs).2 = kvs :=
  Prog.Uses.run_eq (Call.exec master) h (fun _ _ hc => hc.exec_eq) kvs

/-- A run whose last step only makes something of the value. -/
theorem run_pure_ok {β : Type} {g : α → β} {b : β} {s : Tablet}
    (h : (p >>= fun a => (pure (g a) : Handler β)).run (Call.exec master) kvs = (.ok b, s)) :
    ∃ a, p.run (Call.exec master) kvs = (.ok a, s) ∧ b = g a := by
  obtain ⟨a, t, hp, hrest⟩ := Prog.run_bind_ok _ h
  obtain ⟨hb, rfl⟩ := Prod.mk.inj hrest
  exact ⟨a, hp, (Except.ok.inj hb).symm⟩

end Frames

section Logins

variable {u : Bytes} {draws : List ℕ}

/-- A number that is handed out is one of those that were drawn. -/
theorem returns_generateSessionCookie (u : Bytes) (draws : List ℕ) :
    (generateSessionCookie u draws).Returns fun sid =>
      sid = ascii "error" ∨ ∃ n ∈ draws, sid = decimal n := by
  have hdraw : (drawSessionId draws).Returns fun sid => ∃ n ∈ draws, sid = decimal n := by
    induction draws with
    | nil => exact trivial
    | cons n draws ih =>
      have hn : ∃ m ∈ n :: draws, decimal n = decimal m := ⟨n, List.mem_cons_self, rfl⟩
      refine Prog.Returns.ask_bind fun first => Prog.Returns.ite (fun _ => hn) fun _ => ?_
      refine Prog.Returns.ask_bind fun second => Prog.Returns.ite (fun _ => hn) fun _ => ?_
      refine Prog.Returns.mono ih ?_
      rintro sid ⟨m, hm, rfl⟩
      exact ⟨m, List.mem_cons_of_mem n hm, rfl⟩
  refine Prog.Returns.ask_bind fun worker => Prog.Returns.ite (fun _ => Or.inl rfl) fun _ => ?_
  refine hdraw.bind fun sid hsid => Prog.Returns.ask_bind fun active => ?_
  refine Prog.Returns.ite (fun _ => ?_) fun _ => ?_
  · exact Prog.Returns.ask_bind fun _ => Prog.Returns.ask_bind fun _ => Or.inr hsid
  · exact Prog.Returns.ask_bind fun _ => Prog.Returns.ask_bind fun _ => Or.inr hsid

theorem onRow_generateSessionCookie (u : Bytes) (draws : List ℕ) :
    OnRow sessionRow (generateSessionCookie u draws) := by
  have hdraw : OnRow sessionRow (drawSessionId draws) := by
    induction draws with
    | nil => exact OnRows.fail _
    | cons n draws ih =>
      refine OnRows.get rfl fun _ => OnRows.ite (OnRows.pure _) (OnRows.get rfl fun _ => ?_)
      exact OnRows.ite (OnRows.pure _) ih
  refine OnRows.lookup fun _ => OnRows.ite (OnRows.pure _) (hdraw.bind fun sid => ?_)
  refine OnRows.get rfl fun _ => OnRows.ite ?_ ?_
  · exact OnRows.put rfl fun _ => OnRows.cput rfl fun _ => OnRows.pure _
  · exact OnRows.put rfl fun _ => OnRows.put rfl fun _ => OnRows.pure _

theorem onRow_handleLogout (sid username : Bytes) :
    OnRow sessionRow (handleLogout sid username) := by
  refine OnRows.lookup fun _ => OnRows.ite (OnRows.pure _) (OnRows.get rfl fun _ => ?_)
  exact OnRows.delete rfl fun _ => OnRows.cput rfl fun _ => OnRows.pure _

end Logins

/-! ### The store and the machine -/

/-- **The store holds what the machine keeps.** -/
structure Carries (kvs : Tablet) (c : Cloud) : Prop where
  /-- The passwords are in their cells. -/
  passwords : ∀ u, ¬NamedLikeMailbox u → kvs.cells (passwordCell u) = c.passwords u
  /-- They can be told from errors. -/
  plain : ∀ u p, c.passwords u = some p → Plain p
  /-- The sessions are in theirs. -/
  sessions : ∀ k, k ≠ activeUsersColumn → kvs.cells (sessionRow, k) = c.sessions k
  /-- So can their users. -/
  named : ∀ k u, c.sessions k = some u → u ≠ [] ∧ isErr u = false ∧ ¬NamedLikeMailbox u
  /-- The rows of the files represent the trees. -/
  files : ∀ u, ¬NamedLikeMailbox u →
    Represents (kvs.row (storageRow u)) (c.files u) ∧ Blank (kvs.row (storageRow u))

namespace Carries

variable {kvs kvs' : Tablet} {c : Cloud} {master : Master}

/-- A row of files stays what it is when its cells do. -/
theorem row_eq {u : Bytes} (h : ∀ column, kvs'.cells (storageRow u, column) =
    kvs.cells (storageRow u, column)) : kvs'.row (storageRow u) = kvs.row (storageRow u) :=
  funext h

/-- What only works on mailboxes leaves the machine alone. -/
theorem of_onMailRow (h : Carries kvs c) {α : Type} {p : Handler α} (hp : OnRows MailRow p) :
    Carries (p.run (Call.exec master) kvs).2 c := by
  refine ⟨fun u hu => ?_, h.plain, fun k hk => ?_, h.named, fun u hu => ?_⟩
  · rw [← h.passwords u hu]
    exact hp.cells_eq (not_mailRow_userinfo hu) _
  · rw [← h.sessions k hk]
    exact hp.cells_eq not_mailRow_sessionRow _
  · rw [row_eq fun column => hp.cells_eq (not_mailRow_storageRow hu) column]
    exact h.files u hu

/-- What only works on the sessions leaves the rest alone. -/
theorem of_onSessionRow (h : Carries kvs c) {α : Type} {p : Handler α} (hp : OnRow sessionRow p)
    {sessions : Bytes → Option Bytes}
    (hs : ∀ k, k ≠ activeUsersColumn →
      (p.run (Call.exec master) kvs).2.cells (sessionRow, k) = sessions k)
    (hn : ∀ k u, sessions k = some u → u ≠ [] ∧ isErr u = false ∧ ¬NamedLikeMailbox u) :
    Carries (p.run (Call.exec master) kvs).2 { c with sessions := sessions } := by
  refine ⟨fun u hu => ?_, h.plain, hs, hn, fun u hu => ?_⟩
  · rw [← h.passwords u hu]
    exact hp.cells_eq (fun heq => sessionRow_ne_userinfo u heq.symm) _
  · rw [row_eq fun column => hp.cells_eq (fun heq => sessionRow_ne_storageRow u heq.symm) column]
    exact h.files u hu

/-- A password is set. -/
theorem setPassword (h : Carries kvs c) {u p : Bytes} (hp : Plain p)
    (hcells : kvs'.cells = Function.update kvs.cells (passwordCell u) (some p)) :
    Carries kvs' (c.setPassword u p) := by
  have hother : ∀ {row column}, row ≠ userinfo u →
      kvs'.cells (row, column) = kvs.cells (row, column) := by
    intro row column hrow
    have hne : (row, column) ≠ passwordCell u := fun heq => hrow (Prod.mk.inj heq).1
    rw [hcells, Function.update_of_ne hne]
  refine ⟨fun v hv => ?_, fun v q hq => ?_, fun k hk => ?_, h.named, fun v hv => ?_⟩
  · show kvs'.cells (passwordCell v) = Function.update c.passwords u (some p) v
    rw [hcells]
    rcases eq_or_ne v u with rfl | hne
    · rw [Function.update_self, Function.update_self]
    · rw [Function.update_of_ne (passwordCell_injective.ne hne), Function.update_of_ne hne,
        h.passwords v hv]
  · rcases eq_or_ne v u with rfl | hne
    · have hq' : some p = some q := (Function.update_self v _ c.passwords).symm.trans hq
      exact Option.some.inj hq' ▸ hp
    · exact h.plain v q ((Function.update_of_ne hne _ c.passwords).symm.trans hq)
  · rw [hother (sessionRow_ne_userinfo u)]
    exact h.sessions k hk
  · rw [row_eq fun column => hother (storageRow_ne_userinfo v u)]
    exact h.files v hv

/-- The files of a user change. -/
theorem setFiles (h : Carries kvs c) {u : Bytes} {α : Type} {p : Handler α}
    (hp : OnRow (storageRow u) p) {t : FileTree ItemName Bytes}
    (ht : Represents ((p.run (Call.exec master) kvs).2.row (storageRow u)) t ∧
      Blank ((p.run (Call.exec master) kvs).2.row (storageRow u))) :
    Carries (p.run (Call.exec master) kvs).2 (c.setFiles u t) := by
  refine ⟨fun v hv => ?_, h.plain, fun k hk => ?_, h.named, fun v hv => ?_⟩
  · refine Eq.trans ?_ (h.passwords v hv)
    exact hp.cells_eq (fun heq => storageRow_ne_userinfo u v heq.symm) _
  · refine Eq.trans ?_ (h.sessions k hk)
    exact hp.cells_eq (sessionRow_ne_storageRow u) _
  · show Represents _ (Function.update c.files u t v) ∧ _
    rcases eq_or_ne v u with rfl | hne
    · rw [Function.update_self]
      exact ht
    · have hrow : storageRow v ≠ storageRow u := fun heq => hne (List.append_cancel_right heq)
      rw [Function.update_of_ne hne, row_eq fun column => hp.cells_eq hrow column]
      exact h.files v hv

/-- **The user of a request** is found. -/
theorem run_getUsername (h : Carries kvs c) (hup : master.Up) {r : ClientRequest}
    (hr : r.cookie ≠ activeUsersColumn) :
    (getUsernameFromSession r.cookie).run (Call.exec master) kvs =
      (.ok ((c.user r).getD []), kvs) := by
  rw [run_getUsernameFromSession kvs hup, Cloud.user, ← h.sessions _ hr]
  rcases hcell : kvs.cells (sessionRow, r.cookie) with _ | u
  · rw [if_pos (Tablet.isErr_of_none hcell)]
    rfl
  · have hu := h.named _ _ ((h.sessions _ hr).symm.trans hcell)
    rw [Tablet.text_of_some hcell, hu.2.1]
    rfl

end Carries

/-! ### The branches -/

section Steps

variable {master : Master} (hup : master.Up) {kvs s : Tablet} {c : Cloud} (h : Carries kvs c)
  {r : ClientRequest}

include h

/-- The text that is read for a password. -/
theorem Carries.password {u : Bytes} (hu : ¬NamedLikeMailbox u) :
    (c.passwords u = none ∧ isErr (kvs.password u) = true) ∨
      ∃ q, c.passwords u = some q ∧ kvs.password u = q ∧ Plain q := by
  have hcell := h.passwords u hu
  rcases password_cases kvs u with ⟨hnone, herr⟩ | ⟨q, hsome, hq⟩
  · exact Or.inl ⟨hcell.symm.trans hnone, herr⟩
  · have hc := hcell.symm.trans hsome
    exact Or.inr ⟨q, hc, hq, h.plain u q hc⟩

include hup

/-- **A login.** -/
theorem Carries.credentials (hbranch : clientConnection r.text = some .credentials)
    (hname : ∀ body, r.Posts .credentials body → field body "username" ≠ [] ∧
      isErr (field body "username") = false ∧ ¬NamedLikeMailbox (field body "username"))
    {response : Bytes}
    (hrun : (serveCredentials r.draws r.text).run (Call.exec master) kvs = (.ok response, s)) :
    ∃ c', c.Does r (some (.sent response)) c' ∧ Carries s c' := by
  rw [serveCredentials, formBody] at hrun
  rcases hbody : bodyBehind r.text with e | body
  · rw [hbody] at hrun
    cases (Prod.mk.inj hrun).1
  rw [hbody, Prog.pure_bind] at hrun
  have hposts : r.Posts .credentials body := ⟨hbranch, hbody⟩
  obtain ⟨hne, herr, hmail⟩ := hname body hposts
  dsimp only at hrun
  rw [Prog.run_bind_of_ok _ (run_authenticate hup kvs _ _)] at hrun
  by_cases hp : c.passwords (field body "username") = some (field body "password")
  · obtain ⟨q, hq, hread, hplain, hnoerr⟩ := (h.password hmail).resolve_left
      fun hnone => absurd (hnone.1.symm.trans hp) (by simp)
    obtain rfl := Option.some.inj (hq.symm.trans hp)
    have haccepted : (!(isErr (kvs.password (field body "username")) ||
        (kvs.password (field body "username")).isEmpty) &&
          decide (kvs.password (field body "username") = field body "password")) = true := by
      rw [hread, hnoerr]
      simp [hplain]
    rw [haccepted, if_pos rfl] at hrun
    obtain ⟨sid, hsid, rfl⟩ := run_pure_ok hrun
    rcases run_generateSessionCookie kvs hup (field body "username") r.draws with
      hrunning | ⟨n, kvs', hfree, hok, hcells⟩
    · rw [hrunning] at hsid
      cases (Prod.mk.inj hsid).1
    obtain ⟨hn, rfl⟩ := Prod.mk.inj (hok.symm.trans hsid)
    obtain rfl := Except.ok.inj hn
    have hdrawn : ∃ m ∈ r.draws, decimal n = decimal m := by
      have hret := (returns_generateSessionCookie (field body "username") r.draws).run _
        (congrArg Prod.fst hsid)
      refine hret.resolve_left fun heq => ?_
      have hmem : (101 : UInt8) ∈ decimal n := by
        rw [heq]
        decide
      exact absurd (isDigit_of_mem_decimal hmem).2 (by decide)
    obtain ⟨m, hm, hnm⟩ := hdrawn
    have hnew : c.sessions (decimal n) = none := by
      have hcell := h.sessions (decimal n) (decimal_ne_activeUsers n)
      rcases hv : c.sessions (decimal n) with _ | v
      · rfl
      · obtain ⟨hvne, hverr, -⟩ := h.named _ _ hv
        rw [Tablet.FreeSession, Tablet.text_of_some (hcell.trans hv), hverr] at hfree
        exact absurd hfree (by simp [hvne])
    rw [hnm] at hnew hcells ⊢
    refine ⟨_, .loggedIn hposts hp hm hnew, ?_⟩
    have hs : kvs' = ((generateSessionCookie (field body "username") r.draws).run
        (Call.exec master) kvs).2 := by rw [hsid]
    rw [hs] at hcells ⊢
    refine h.of_onSessionRow (onRow_generateSessionCookie _ _) (fun k hk => ?_) fun k u hu => ?_
    · rw [hcells k hk]
      rcases eq_or_ne k (decimal m) with rfl | hkm
      · rw [Function.update_self, Function.update_self]
      · rw [Function.update_of_ne hkm, Function.update_of_ne fun heq => hkm (Prod.mk.inj heq).2,
          h.sessions k hk]
    · rcases eq_or_ne k (decimal m) with rfl | hkm
      · rw [Function.update_self] at hu
        obtain rfl := Option.some.inj hu
        exact ⟨hne, herr, hmail⟩
      · rw [Function.update_of_ne hkm] at hu
        exact h.named k u hu
  · have hrefused : (!(isErr (kvs.password (field body "username")) ||
        (kvs.password (field body "username")).isEmpty) &&
          decide (kvs.password (field body "username") = field body "password")) = false := by
      rcases h.password hmail with ⟨-, hnoerr⟩ | ⟨q, hq, hread, -⟩
      · rw [hnoerr]
        rfl
      · have hqp : q ≠ field body "password" := fun heq => hp (heq ▸ hq)
        rw [hread, decide_eq_false hqp, Bool.and_false]
    rw [hrefused, if_neg Bool.false_ne_true] at hrun
    obtain ⟨hres, rfl⟩ := Prod.mk.inj hrun
    obtain rfl := Except.ok.inj hres
    exact ⟨c, .loginRefused hposts hp, h⟩

/-- **A signup.** -/
theorem Carries.signup (hbranch : clientConnection r.text = some .signup)
    (hname : ∀ body, r.Posts .signup body → ¬NamedLikeMailbox (field body "username"))
    (hplain : ∀ body, r.Posts .signup body →
      kvs.cells (passwordCell (field body "username")) = none → Plain (field body "password"))
    {response : Bytes}
    (hrun : (serveSignup r.text).run (Call.exec master) kvs = (.ok response, s)) :
    ∃ c', c.Does r (some (.sent response)) c' ∧ Carries s c' := by
  rw [serveSignup, formBody] at hrun
  rcases hbody : bodyBehind r.text with e | body
  · rw [hbody] at hrun
    cases (Prod.mk.inj hrun).1
  rw [hbody, Prog.pure_bind] at hrun
  have hposts : r.Posts .signup body := ⟨hbranch, hbody⟩
  have hmail := hname body hposts
  have hsignup := run_signup hup kvs (field body "username") (field body "password")
  rcases h.password hmail with ⟨hnone, herr⟩ | ⟨q, hq, hread, -, hnoerr⟩
  · rw [if_pos herr] at hsignup
    rw [Prog.run_bind_of_ok _ hsignup, if_pos rfl] at hrun
    obtain ⟨hres, rfl⟩ := Prod.mk.inj hrun
    obtain rfl := Except.ok.inj hres
    refine ⟨_, .signedUp hposts hnone, h.setPassword ?_ (Tablet.cells_put kvs _ _ _)⟩
    exact hplain body hposts ((h.passwords _ hmail).trans hnone)
  · rw [if_neg (by rw [hread, hnoerr]; exact Bool.false_ne_true)] at hsignup
    rw [Prog.run_bind_of_ok _ hsignup, if_neg Bool.false_ne_true] at hrun
    obtain ⟨hres, rfl⟩ := Prod.mk.inj hrun
    obtain rfl := Except.ok.inj hres
    exact ⟨c, .signupRefused hposts (by simp [hq]), h⟩

/-- **A change of the password.** -/
theorem Carries.changePassword (hbranch : clientConnection r.text = some .changePassword)
    (hname : ∀ body, r.Posts .changePassword body → ¬NamedLikeMailbox (field body "username"))
    (hplain : ∀ body, r.Posts .changePassword body →
      kvs.cells (passwordCell (field body "username")) = some (field body "old_password") →
      Plain (field body "new_password")) {response : Bytes}
    (hrun : (serveChangePassword r.text).run (Call.exec master) kvs = (.ok response, s)) :
    ∃ c', c.Does r (some (.sent response)) c' ∧ Carries s c' := by
  rw [serveChangePassword, formBody] at hrun
  rcases hbody : bodyBehind r.text with e | body
  · rw [hbody] at hrun
    cases (Prod.mk.inj hrun).1
  rw [hbody, Prog.pure_bind] at hrun
  have hposts : r.Posts .changePassword body := ⟨hbranch, hbody⟩
  have hmail := hname body hposts
  have hchange := run_changePassword hup kvs (field body "username") (field body "old_password")
    (field body "new_password")
  rcases h.password hmail with ⟨hnone, herr⟩ | ⟨q, hq, hread, -, hnoerr⟩
  · rw [if_pos herr] at hchange
    rw [Prog.run_bind_of_ok _ hchange] at hrun
    obtain ⟨hres, rfl⟩ := Prod.mk.inj hrun
    obtain rfl := Except.ok.inj hres
    exact ⟨c, .noSuchUser hposts hnone, h⟩
  · rw [hread, hnoerr, if_neg Bool.false_ne_true] at hchange
    rcases eq_or_ne q (field body "old_password") with heq | hne
    · rw [heq] at hq
      have hcell := (h.passwords _ hmail).trans hq
      rw [if_neg (not_not.mpr heq)] at hchange
      rw [Prog.run_bind_of_ok _ hchange] at hrun
      obtain ⟨hres, rfl⟩ := Prod.mk.inj hrun
      obtain rfl := Except.ok.inj hres
      refine ⟨_, .passwordChanged hposts hq, h.setPassword (hplain body hposts hcell) ?_⟩
      exact Call.cells_exec_cput_of_eq master kvs hcell
    · rw [if_pos hne] at hchange
      rw [Prog.run_bind_of_ok _ hchange] at hrun
      obtain ⟨hres, rfl⟩ := Prod.mk.inj hrun
      obtain rfl := Except.ok.inj hres
      exact ⟨c, .wrongPassword hposts hq hne, h⟩

/-- **A logout.** -/
theorem Carries.logout (hbranch : clientConnection r.text = some .logout)
    (hcookie : r.cookie ≠ activeUsersColumn) {response : Bytes}
    (hrun : (serveLogout r.text).run (Call.exec master) kvs = (.ok response, s)) :
    ∃ c', c.Does r (some (.sent response)) c' ∧ Carries s c' := by
  have hser : serveLogout r.text = getUsernameFromSession r.cookie >>= fun username =>
      handleLogout r.cookie username >>= fun _ =>
        pure (pageOrHeader r.text "200 OK" (pageWithLogin "Logged out successfully!")) := rfl
  rw [hser, Prog.run_bind_of_ok _ (h.run_getUsername hup hcookie)] at hrun
  obtain ⟨⟨⟩, hout, rfl⟩ := run_pure_ok hrun
  have hcells : ∀ k, k ≠ activeUsersColumn → s.cells (sessionRow, k) = _ := fun k hk =>
    (congrArg (fun t : Except Abort Unit × Tablet => t.2.cells (sessionRow, k)) hout).symm.trans
      (cells_handleLogout kvs hup r.cookie _ hk)
  refine ⟨_, .loggedOut hbranch, ?_⟩
  have hs : s = ((handleLogout r.cookie ((c.user r).getD [])).run (Call.exec master) kvs).2 := by
    rw [hout]
  rw [hs] at hcells ⊢
  refine h.of_onSessionRow (onRow_handleLogout _ _) (fun k hk => ?_) fun k u hu => ?_
  · rw [hcells k hk]
    rcases eq_or_ne k r.cookie with rfl | hne
    · rw [Function.update_self, Function.update_self]
    · rw [Function.update_of_ne hne, Function.update_of_ne fun heq => hne (Prod.mk.inj heq).2,
        h.sessions k hk]
  · rcases eq_or_ne k r.cookie with rfl | hne
    · rw [Function.update_self] at hu
      cases hu
    · rw [Function.update_of_ne hne] at hu
      exact h.named k u hu

/-- **The storage**, for the user of the session. -/
theorem Carries.storage {branch : Branch} {method : Bytes → Handler StorageReply}
    (hbranch : clientConnection r.text = some branch)
    (hm : r.storageBranch branch = some method) (hcookie : r.cookie ≠ activeUsersColumn)
    (hfits : ∀ u q, c.user r = some u → r.storageRequest branch = some q →
      q.Valid ∧ q.Fits (kvs.row (storageRow u))) {response : Response}
    (hrun : (forUser r.text (r.refusal branch) method).run (Call.exec master) kvs =
      (.ok response, s)) :
    ∃ c', c.Does r (some response) c' ∧ Carries s c' := by
  rw [forUser, ← ClientRequest.cookie, Prog.run_bind_of_ok _ (h.run_getUsername hup hcookie)]
    at hrun
  rcases huser : c.user r with _ | u
  · rw [huser] at hrun
    obtain ⟨hres, rfl⟩ := Prod.mk.inj hrun
    obtain rfl := Except.ok.inj hres
    exact ⟨c, .storageRefused hbranch hm huser, h⟩
  obtain ⟨hne, -, hmail⟩ := h.named _ _ huser
  obtain ⟨hrep, hblank⟩ := h.files u hmail
  have hsome : ((some u).getD []).isEmpty ≠ true := by simpa using hne
  rw [huser, if_neg hsome] at hrun
  obtain ⟨reply, hreply, rfl⟩ := run_pure_ok hrun
  rw [Option.getD_some] at hreply
  have hs : s = ((method u).run (Call.exec master) kvs).2 := by rw [hreply]
  rcases hq : r.storageRequest branch with _ | q
  · have hsame : s = kvs := hs.trans (run_of_reads (r.reads_storageBranch hm hq u))
    rw [hsame]
    rcases eq_or_ne branch .download with rfl | hdownload
    · refine ⟨c, .downloaded hbranch huser fun p n d hd hfile => ?_, h⟩
      obtain ⟨params, hparams, hfolder, hname⟩ := hd
      obtain rfl := Option.some.inj hm
      have hfound : foundIn ((storageParams r.text).map .found) = some params := by
        rw [hparams]
        rfl
      simp only [StorageService.download, served_of_foundIn hfound, hfolder, hname] at hreply
      have hbytes := (congrArg Prod.fst hreply).symm.trans (hrep.download hup hfile)
      exact Except.ok.inj hbytes
    · exact ⟨c, .form hbranch hm hq hdownload huser, h⟩
  · obtain ⟨method', hm', hanswered⟩ := ClientRequest.storageBranch_of_request hq
    obtain rfl := Option.some.inj (hm.symm.trans hm')
    obtain ⟨hvalid, hfit⟩ := hfits u q huser hq
    have hrow := onRow_storageBranch hm u
    rw [hanswered u] at hreply
    obtain ⟨a, ha, rfl⟩ := run_pure_ok hreply
    obtain ⟨t, ht, hrep'⟩ := hrep.does hblank hup hvalid hfit ha
    have hblank' : Blank (s.row (storageRow u)) := by
      have hkeep := @KeepsBlank.handler (storageRow u) master q hvalid r.fuel kvs hblank
      rwa [ha] at hkeep
    refine ⟨_, .stored hbranch hq huser ht, ?_⟩
    rw [hs] at hrep' hblank' ⊢
    exact h.setFiles hrow ⟨hrep', hblank'⟩

/-- What `handleEmailService` makes of a request that has a session, or none. -/
theorem Carries.emailService (hcookie : r.cookie ≠ activeUsersColumn) {env : Surroundings}
    {path : Bytes} {reqType : ReqType} {queryParams data : Bytes} {response : MailResponse}
    (hrun : (handleEmailService env r.cookie path reqType queryParams data).run
      (Call.exec master) kvs = (.ok response, s)) :
    Carries s c ∧ (c.user r = none ∧ response = .unauthorized ∨
      ∃ u page, c.user r = some u ∧ response = .page page) := by
  rw [handleEmailService, Prog.run_bind_of_ok _ (h.run_getUsername hup hcookie)] at hrun
  rcases huser : c.user r with _ | u
  · rw [huser] at hrun
    obtain ⟨hres, rfl⟩ := Prod.mk.inj hrun
    exact ⟨h, Or.inl ⟨rfl, (Except.ok.inj hres).symm⟩⟩
  have hsome : ((some u).getD []).isEmpty ≠ true := by
    simpa using (h.named _ _ huser).1
  rw [huser, if_neg hsome, run_lookup_bind, isErr_lookup hup, if_neg Bool.false_ne_true] at hrun
  obtain ⟨page, hpage, rfl⟩ := run_pure_ok hrun
  have hs : s = ((handleRequest env path reqType queryParams data).run
      (Call.exec master) kvs).2 := by rw [hpage]
  refine ⟨?_, Or.inr ⟨u, page, rfl, rfl⟩⟩
  rw [hs]
  exact h.of_onMailRow (onMailRow_handleRequest _ _ _ _ _)

/-- **The mail** leaves accounts, sessions and files alone. -/
theorem Carries.mail {branch : Branch} {p : Handler MailResponse}
    (hbranch : clientConnection r.text = some branch)
    (hm : mailBranch r.env r.text branch = some p) (hcookie : r.cookie ≠ activeUsersColumn)
    {response : Response} (hrun : (answering p).run (Call.exec master) kvs = (.ok response, s)) :
    ∃ c', c.Does r (some response) c' ∧ Carries s c' := by
  obtain ⟨answer, hp, rfl⟩ := run_pure_ok hrun
  have hservice : Carries s c ∧ (c.user r = none ∧ answer = .unauthorized ∨
      ∃ u page, c.user r = some u ∧ answer = .page page) := by
    cases branch with
    | inbox =>
      obtain rfl := Option.some.inj hm
      have hfirst : (getUsernameFromSession (extractSessionId r.text)).run (Call.exec master) kvs =
          (.ok ((c.user r).getD []), kvs) := h.run_getUsername hup hcookie
      rw [Prog.run_bind_of_ok _ hfirst] at hp
      exact h.emailService hup hcookie hp
    | email | deleteMail | send | compose | reply | forward =>
      obtain rfl := Option.some.inj hm
      exact h.emailService hup hcookie hp
    | _ => cases hm
  obtain ⟨hs, ⟨huser, rfl⟩ | ⟨u, page, huser, rfl⟩⟩ := hservice
  · exact ⟨c, .mailRefused hbranch hm huser, hs⟩
  · exact ⟨c, .mail hbranch hm huser, hs⟩

/-- What is behind the test is done for the admin only. -/
theorem Carries.onlyAdmin {branch : Branch} (hbranch : clientConnection r.text = some branch)
    (hb : branch ∈ Cloud.guarded) {op : Handler AdminOperation} (hop : op.Uses Call.Reads)
    (hcookie : r.cookie ≠ activeUsersColumn)
    (heq : adminOperation r.later r.text = PennCloud.onlyAdmin r.text op) {response : Response}
    (hrun : (serveAdmin r.later r.text).run (Call.exec master) kvs = (.ok response, s)) :
    ∃ c', c.Does r (some response) c' ∧ Carries s c' := by
  rw [serveAdmin, heq, PennCloud.onlyAdmin, Prog.bind_bind, ← ClientRequest.cookie,
    Prog.run_bind_of_ok _ (h.run_getUsername hup hcookie), Prog.ite_bind] at hrun
  by_cases hadmin : c.user r = some (ascii "admin")
  · have hyes : ¬(((c.user r).getD []).isEmpty ||
        decide ((c.user r).getD [] ≠ ascii "admin")) = true := by
      rw [hadmin]
      decide
    rw [if_neg hyes, Prog.bind_bind] at hrun
    obtain ⟨o, t, ho, hrest⟩ := Prog.run_bind_ok _ hrun
    obtain ⟨hres, rfl⟩ := Prod.mk.inj hrest
    obtain rfl := Except.ok.inj hres
    have hs : t = kvs := by
      have hkeep := @run_of_reads master kvs AdminOperation op hop
      rwa [ho] at hkeep
    rw [hs]
    exact ⟨c, .admin hbranch (List.mem_append_left _ hb) fun _ => hadmin, h⟩
  · have hno : (((c.user r).getD []).isEmpty ||
        decide ((c.user r).getD [] ≠ ascii "admin")) = true := by
      rcases huser : c.user r with _ | u
      · rfl
      · have hu : u ≠ ascii "admin" := fun heq => hadmin (heq ▸ huser)
        simp [hu]
    rw [if_pos hno] at hrun
    obtain ⟨hres, rfl⟩ := Prod.mk.inj hrun
    obtain rfl := Except.ok.inj hres
    exact ⟨c, .adminRefused hbranch hb hadmin, h⟩

omit hup in
/-- The other branches of the console let everybody in. -/
theorem Carries.everybody {branch : Branch} (hbranch : clientConnection r.text = some branch)
    (hb : branch ∈ unguarded) {op : AdminOperation}
    (heq : adminOperation r.later r.text = return some op) {response : Response}
    (hrun : (serveAdmin r.later r.text).run (Call.exec master) kvs = (.ok response, s)) :
    ∃ c', c.Does r (some response) c' ∧ Carries s c' := by
  rw [serveAdmin, heq] at hrun
  obtain ⟨hres, rfl⟩ := Prod.mk.inj hrun
  obtain rfl := Except.ok.inj hres
  refine ⟨c, .admin hbranch (List.mem_append_right _ hb) fun hg => ?_, h⟩
  have hdisjoint : ∀ b ∈ unguarded, b ∉ Cloud.guarded := by decide
  exact absurd hg (hdisjoint branch hb)

end Steps

section Pages

variable (file : Bytes → Bytes) (request : Bytes)

theorem getPage_cases : (∃ page, getPage file request = return page) ∨
    ∃ e, getPage file request = .fail e := by
  rw [getPage]
  split
  · dsimp only
    split_ifs <;> exact Or.inl ⟨_, rfl⟩
  · exact Or.inr ⟨_, rfl⟩

theorem headPage_cases : (∃ page, headPage file request = return page) ∨
    ∃ e, headPage file request = .fail e := by
  rw [headPage]
  split
  · dsimp only
    split_ifs <;> exact Or.inl ⟨_, rfl⟩
  · exact Or.inr ⟨_, rfl⟩

end Pages

/-- A page does not depend on the store. -/
theorem Carries.page {master : Master} {kvs s : Tablet} {c : Cloud} (h : Carries kvs c)
    {r : ClientRequest} {branch : Branch} (hbranch : clientConnection r.text = some branch)
    {p : Handler Bytes} (hp : (∃ page, p = return page) ∨ ∃ e, p = .fail e)
    (hserve : r.serveBranch branch = sending p) {response : Response}
    (hrun : (sending p).run (Call.exec master) kvs = (.ok response, s)) :
    ∃ c', c.Does r (some response) c' ∧ Carries s c' := by
  rcases hp with ⟨page, rfl⟩ | ⟨e, rfl⟩
  · obtain ⟨hres, rfl⟩ := Prod.mk.inj hrun
    obtain rfl := Except.ok.inj hres
    exact ⟨c, .page hbranch hserve, h⟩
  · cases (Prod.mk.inj hrun).1


/-! ### Runs -/

/-- A request, and what it is answered. -/
abbrev Visit := ClientRequest × Option Response

namespace Visit

/-- The request is served. -/
def step (master : Master) (kvs : Tablet) (v : Visit) : Tablet :=
  (v.1.serve.run (Call.exec master) kvs).2

/-- **The request keeps to what the front end takes for granted**, and this is the answer to
it. -/
structure Fitting (master : Master) (kvs : Tablet) (v : Visit) : Prop where
  /-- The cookie is not the column with the list of active users. -/
  cookie : v.1.cookie ≠ activeUsersColumn
  /-- Who logs in has a name that is neither an error nor like that of a mailbox. -/
  login : ∀ body, v.1.Posts .credentials body → field body "username" ≠ [] ∧
    isErr (field body "username") = false ∧ ¬NamedLikeMailbox (field body "username")
  /-- Who signs up has such a name, and a password that is no error, -/
  signup : ∀ body, v.1.Posts .signup body → ¬NamedLikeMailbox (field body "username") ∧
    (kvs.cells (passwordCell (field body "username")) = none → Plain (field body "password"))
  /-- and so is the password that replaces it. -/
  change : ∀ body, v.1.Posts .changePassword body → ¬NamedLikeMailbox (field body "username") ∧
    (kvs.cells (passwordCell (field body "username")) = some (field body "old_password") →
      Plain (field body "new_password"))
  /-- A request for the storage finds what it needs. -/
  storage : ∀ branch u q, clientConnection v.1.text = some branch →
    kvs.cells (sessionRow, v.1.cookie) = some u → v.1.storageRequest branch = some q →
    q.Valid ∧ q.Fits (kvs.row (storageRow u))
  /-- The answer. -/
  answer : (v.1.serve.run (Call.exec master) kvs).1 = .ok v.2

/-- What the machine does. -/
def OnCloud (c : Cloud) (v : Visit) (c' : Cloud) : Prop := c.Does v.1 v.2 c'

end Visit

section Runs

variable {master : Master} {kvs kvs₀ : Tablet} {c : Cloud} {vs : List Visit}

/-- **One request** does what the machine does. -/
theorem Carries.step (hup : master.Up) (h : Carries kvs c) {v : Visit}
    (hv : v.Fitting master kvs) :
    ∃ c', Visit.OnCloud c v c' ∧ Carries (v.step master kvs) c' := by
  obtain ⟨r, response⟩ := v
  have hrun : r.serve.run (Call.exec master) kvs =
      (.ok response, Visit.step master kvs (r, response)) := Prod.ext hv.answer rfl
  generalize Visit.step master kvs (r, response) = s at hrun ⊢
  rw [ClientRequest.serve] at hrun
  rcases hbranch : clientConnection r.text with _ | branch
  · rw [hbranch] at hrun
    obtain ⟨hres, rfl⟩ := Prod.mk.inj hrun
    obtain rfl := Except.ok.inj hres
    exact ⟨c, .closed hbranch, h⟩
  rw [hbranch] at hrun
  obtain ⟨response, hserve, rfl⟩ := run_pure_ok hrun
  have hcookie := hv.cookie
  have hfits : ∀ u q, c.user r = some u → r.storageRequest branch = some q →
      q.Valid ∧ q.Fits (kvs.row (storageRow u)) := fun u q hu hq =>
    hv.storage branch u q hbranch ((h.sessions _ hcookie).trans hu) hq
  have hpure : ∀ op : AdminOperation, (pure op : Handler AdminOperation).Uses Call.Reads :=
    fun _ => trivial
  cases branch with
  | credentials =>
    obtain ⟨page, hpage, rfl⟩ := run_pure_ok hserve
    exact h.credentials hup hbranch hv.login hpage
  | signup =>
    obtain ⟨page, hpage, rfl⟩ := run_pure_ok hserve
    exact h.signup hup hbranch (fun body hb => (hv.signup body hb).1)
      (fun body hb => (hv.signup body hb).2) hpage
  | changePassword =>
    obtain ⟨page, hpage, rfl⟩ := run_pure_ok hserve
    exact h.changePassword hup hbranch (fun body hb => (hv.change body hb).1)
      (fun body hb => (hv.change body hb).2) hpage
  | logout =>
    obtain ⟨page, hpage, rfl⟩ := run_pure_ok hserve
    exact h.logout hup hbranch hcookie hpage
  | list | remove | renameFolder | renameFile | moveFile | moveFolder | createFolder | upload
  | download => exact h.storage hup hbranch rfl hcookie hfits hserve
  | email | deleteMail | send | compose | inbox | reply | forward =>
    exact h.mail hup hbranch rfl hcookie hserve
  | adminDashboard =>
    exact h.onlyAdmin hup hbranch (by decide) (hpure .home) hcookie
      (by rw [adminOperation, hbranch]) hserve
  | adminToggle =>
    exact h.onlyAdmin hup hbranch (by decide) (hpure _) hcookie
      (by rw [adminOperation, hbranch]) hserve
  | frontendToggle =>
    exact h.onlyAdmin hup hbranch (by decide)
      ((uses_readRequestBody r.later r.text).bind fun _ => hpure _) hcookie
      (by rw [adminOperation, hbranch]) hserve
  | adminWorkerStatus | adminTabletPage | adminWorkerPage =>
    exact h.everybody hbranch (by decide) (by rw [adminOperation, hbranch]) hserve
  | health => exact h.page hbranch (Or.inl ⟨healthResponse, rfl⟩) rfl hserve
  | methodNotAllowed => exact h.page hbranch (Or.inl ⟨methodNotAllowed, rfl⟩) rfl hserve
  | getPage => exact h.page hbranch (getPage_cases r.file r.text) rfl hserve
  | headPage => exact h.page hbranch (headPage_cases r.file r.text) rfl hserve

/-- Nobody has signed up. -/
theorem carries_empty (h0 : kvs₀.cells = fun _ => none) : Carries kvs₀ .empty := by
  have hrow : ∀ b c, kvs₀.row b c = none := fun b c => congrFun h0 (b, c)
  refine ⟨fun u _ => congrFun h0 _, fun u p hp => ?_, fun k _ => congrFun h0 _, fun k u hu => ?_,
    fun u _ => ⟨represents_empty (hrow _), fun c _ => hrow _ c⟩⟩
  · cases hp
  · cases hu

/-- **What the users find** is what the machine keeps. -/
structure Found (master : Master) (kvs : Tablet) (c : Cloud) : Prop where
  /-- A password is accepted when it is that of the user. -/
  logins : ∀ u p, ¬NamedLikeMailbox u →
    (((authenticate u p).run (Call.exec master) kvs).1 = .ok true ↔ c.passwords u = some p)
  /-- A session names its user. -/
  sessions : ∀ k, k ≠ activeUsersColumn →
    ((getUsernameFromSession k).run (Call.exec master) kvs).1 = .ok ((c.sessions k).getD [])
  /-- The pages of a user show the files. -/
  files : ∀ u, ¬NamedLikeMailbox u → PagesOf master (storageRow u) kvs (c.files u)

theorem Carries.found (hup : master.Up) (h : Carries kvs c) : Found master kvs c := by
  refine ⟨fun u p hu => ?_, fun k hk => ?_, fun u hu => ?_⟩
  · rw [run_authenticate hup kvs]
    rcases h.password hu with ⟨hnone, herr⟩ | ⟨q, hq, hread, hne, hnoerr⟩
    · simp [hnone, herr]
    · simp [hq, hread, hne, hnoerr]
  · rw [run_getUsernameFromSession kvs hup, ← h.sessions k hk]
    rcases hcell : kvs.cells (sessionRow, k) with _ | u
    · rw [if_pos (Tablet.isErr_of_none hcell)]
      rfl
    · rw [Tablet.text_of_some hcell, (h.named k u ((h.sessions k hk).symm.trans hcell)).2.1]
      rfl
  · obtain ⟨hrep, -⟩ := h.files u hu
    exact ⟨fun p hp => hrep.displays hup hp, fun p n d hd => hrep.download hup hd⟩

/-- **The front end does what it is for.** From a store with nothing in it, along any sequence
of requests that keep to what the front end takes for granted, each request does to accounts,
sessions and files what `PennCloud.Cloud.Does` says, and is answered so; and what the users find
in the end is what that leaves. -/
theorem server_refines_cloud (hup : master.Up) (h0 : kvs₀.cells = fun _ => none)
    (h : Runs.Along (Visit.step master) (Visit.Fitting master) kvs₀ vs) :
    ∃ c, Runs.Follows Visit.OnCloud .empty vs c ∧
      Found master (vs.foldl (Visit.step master) kvs₀) c := by
  have hstep : ∀ (kvs : Tablet) (c : Cloud) (v : Visit), Carries kvs c → v.Fitting master kvs →
      ∃ c', Visit.OnCloud c v c' ∧ Carries (v.step master kvs) c' :=
    fun kvs c v hc hv => hc.step hup hv
  obtain ⟨c, hfollows, hcarries⟩ := h.simulates hstep (carries_empty h0)
  exact ⟨c, hfollows, hcarries.found hup⟩

end Runs

/-! ### Three requests, one after the other -/

/-- Ann signs up, -/
def annSignsUp : ClientRequest := plainRequest
  "POST /signup HTTP/1.1\r\nConnection: keep-alive\r\n\r\nusername=ann&password=one" []

/-- logs in, -/
def annLogsIn : ClientRequest := plainRequest
  "POST /credentials HTTP/1.1\r\nConnection: keep-alive\r\n\r\nusername=ann&password=one" [7]

/-- and looks at her storage. -/
def annLooks : ClientRequest := plainRequest
  "GET /storage HTTP/1.1\r\nConnection: keep-alive\r\nCookie: session_id=7\r\n\r\n" []

example : annLooks.cookie = ascii "7" := by decide +kernel

/-- What she is answered. -/
def annArrives : List Visit :=
  [(annSignsUp, some (.sent (httpResponse "200 OK" (pageWithLogin "Signed up!")))),
   (annLogsIn, some (.sent (loginResponse (ascii "ann") (ascii "7")))),
   (annLooks, some (.storage (.answer (.ok (.listing [] none)))))]

/-- A request for one branch is no form of another. -/
theorem ClientRequest.not_posts {r : ClientRequest} {branch other : Branch} {body : Bytes}
    (h : clientConnection r.text = some branch) (hne : branch ≠ other) : ¬r.Posts other body :=
  fun hp => hne (Option.some.inj (h.symm.trans hp.1))

theorem along_annArrives :
    Runs.Along (Visit.step Master.first) (Visit.Fitting Master.first) ∅ annArrives := by
  have hup : clientConnection annSignsUp.text = some .signup := by decide +kernel
  have hin : clientConnection annLogsIn.text = some .credentials := by decide +kernel
  have hlook : clientConnection annLooks.text = some .list := by decide +kernel
  have hform : bodyBehind annSignsUp.text = .ok (ascii "username=ann&password=one") := by
    decide +kernel
  have hform' : bodyBehind annLogsIn.text = .ok (ascii "username=ann&password=one") := by
    decide +kernel
  refine ⟨⟨by decide +kernel, fun body hb => ?_, fun body hb => ?_, fun body hb => ?_, ?_, ?_⟩,
    ⟨by decide +kernel, fun body hb => ?_, fun body hb => ?_, fun body hb => ?_, ?_, ?_⟩,
    ⟨by decide +kernel, fun body hb => ?_, fun body hb => ?_, fun body hb => ?_, ?_, ?_⟩, trivial⟩
  · exact absurd hb (ClientRequest.not_posts hup (by simp))
  · obtain rfl := Except.ok.inj (hform.symm.trans hb.2)
    exact ⟨by decide +kernel, fun _ => by decide +kernel⟩
  · exact absurd hb (ClientRequest.not_posts hup (by simp))
  · intro branch u q _ hu
    cases hu
  · decide +kernel
  · obtain rfl := Except.ok.inj (hform'.symm.trans hb.2)
    decide +kernel
  · exact absurd hb (ClientRequest.not_posts hin (by simp))
  · exact absurd hb (ClientRequest.not_posts hin (by simp))
  · intro branch u q hb _ hq
    obtain rfl := Option.some.inj (hin.symm.trans hb)
    cases hq
  · decide +kernel
  · exact absurd hb (ClientRequest.not_posts hlook (by simp))
  · exact absurd hb (ClientRequest.not_posts hlook (by simp))
  · exact absurd hb (ClientRequest.not_posts hlook (by simp))
  · intro branch u q hb hu hq
    obtain rfl := Option.some.inj (hlook.symm.trans hb)
    have hq' : annLooks.storageRequest .list = some (.list []) := by decide +kernel
    obtain rfl := Option.some.inj (hq'.symm.trans hq)
    exact ⟨Or.inl rfl, Or.inl rfl⟩
  · decide +kernel

theorem annArrives_refines_cloud : ∃ c, Runs.Follows Visit.OnCloud .empty annArrives c ∧
    Found Master.first (annArrives.foldl (Visit.step Master.first) ∅) c :=
  server_refines_cloud Master.up_first rfl along_annArrives

end PennCloud
