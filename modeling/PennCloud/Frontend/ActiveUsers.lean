import PennCloud.Frontend.Fields
import PennCloud.Frontend.Sessions
import Mathlib.Data.List.TakeWhile

/-!
# The list of active users

The column `active-users` lists who is logged in, an entry `user:session` for each
session (`PennCloud.activeEntries`). `handleLogout` goes through the entries with a flag,
which the entry of the session that is logged out sets and nothing takes back: with that
entry it drops all entries behind it.

`PennCloud.logout_removes_iff` says when no other session is lost by that.
-/

namespace PennCloud

open Wire Calls Text

/-! ### Entries -/

/-- The entries of a list: what stands before the first colon of a piece, and what stands
behind it. -/
def userEntries (activeUsers : Bytes) : List (Bytes × Bytes) :=
  (getlines 59 activeUsers).filterMap (cut (ascii ":"))

/-- The users and sessions that are listed. -/
def activeEntries (kvs : Tablet) : List (Bytes × Bytes) :=
  ((kvs.cells (sessionRow, activeUsersColumn)).map userEntries).getD []

theorem sessionOfEntry_eq (userinfo : Bytes) :
    sessionOfEntry userinfo = (cut (ascii ":") userinfo).map Prod.snd := by
  rw [sessionOfEntry]
  split_ifs with hcolon
  · obtain ⟨a, b, rfl, ha⟩ := List.eq_append_cons_of_mem hcolon
    have hcut : cut (ascii ":") (a ++ 58 :: b) = some (a, b) :=
      cut_of_firstBehind (firstBehind_of_notMem ha) b
    have hdrop : (a ++ 58 :: b).dropWhile (fun c => decide (c ≠ 58)) = 58 :: b := by
      rw [List.dropWhile_append_of_pos]
      · rfl
      · exact fun c hc => decide_eq_true fun heq => ha (heq ▸ hc)
    rw [hcut, hdrop]
    rfl
  · rcases hcut : cut (ascii ":") userinfo with _ | r
    · rfl
    · refine absurd (isSome_cut.mp (Option.isSome_iff_exists.mpr ⟨r, hcut⟩)) ?_
      exact not_infix_of_notMem (c := 58) (by decide) hcolon

/-- The text of pieces, each with its delimiter behind it. -/
def delimited (pieces : List Bytes) : Bytes := (pieces.map (· ++ ascii ";")).flatten

theorem getlines_delimited {pieces : List Bytes} (h : ∀ p ∈ pieces, 59 ∉ p) :
    getlines 59 (delimited pieces) = pieces :=
  getlines_flatMap h

/-- The pieces that the loop keeps. -/
theorem keepUntil_eq (sid updated : Bytes) (pieces : List Bytes) :
    keepUntil sid false updated pieces =
      updated ++ delimited (pieces.takeWhile fun p => sessionOfEntry p ≠ some sid) := by
  have hfound : ∀ (u : Bytes) (ps : List Bytes), keepUntil sid true u ps = u := by
    intro u ps
    induction ps with
    | nil => rfl
    | cons p ps ih => rw [keepUntil, Bool.true_or, if_pos rfl, ih]
  induction pieces generalizing updated with
  | nil => exact (List.append_nil updated).symm
  | cons p pieces ih =>
    by_cases hp : sessionOfEntry p = some sid
    · rw [keepUntil, List.takeWhile_cons_of_neg (by simpa using hp), decide_eq_true hp,
        Bool.or_true, if_pos rfl, hfound]
      exact (List.append_nil updated).symm
    · rw [keepUntil, List.takeWhile_cons_of_pos (by simpa using hp), decide_eq_false hp,
        Bool.or_false, if_neg Bool.false_ne_true, ih]
      simp [delimited]

/-- The pieces that are kept have the entries up to the first one of the session. -/
theorem entries_takeWhile (sid : Bytes) (pieces : List Bytes) :
    (pieces.takeWhile fun p => sessionOfEntry p ≠ some sid).filterMap (cut (ascii ":")) =
      (pieces.filterMap (cut (ascii ":"))).takeWhile fun e => e.2 ≠ sid := by
  induction pieces with
  | nil => rfl
  | cons p pieces ih =>
    rcases hcut : cut (ascii ":") p with _ | e
    · have hp : sessionOfEntry p ≠ some sid := by
        rw [sessionOfEntry_eq, hcut]
        exact (Option.some_ne_none sid).symm
      rw [List.takeWhile_cons_of_pos (by simpa using hp), List.filterMap_cons_none hcut,
        List.filterMap_cons_none hcut, ih]
    · by_cases he : e.2 = sid
      · have hp : sessionOfEntry p = some sid := by rw [sessionOfEntry_eq, hcut, ← he]; rfl
        rw [List.takeWhile_cons_of_neg (by simpa using hp), List.filterMap_cons_some hcut,
          List.takeWhile_cons_of_neg (by simpa using he)]
        rfl
      · have hp : sessionOfEntry p ≠ some sid := by
          rw [sessionOfEntry_eq, hcut]
          exact fun heq => he (Option.some.inj heq)
        rw [List.takeWhile_cons_of_pos (by simpa using hp), List.filterMap_cons_some hcut,
          List.filterMap_cons_some hcut, List.takeWhile_cons_of_pos (by simpa using he), ih]

/-- **What the loop leaves of a list.** -/
theorem userEntries_keepUntil (sid activeUsers : Bytes) :
    userEntries (keepUntil sid false [] (getlines 59 activeUsers)) =
      (userEntries activeUsers).takeWhile fun e => e.2 ≠ sid := by
  rw [keepUntil_eq, List.nil_append, userEntries, getlines_delimited, entries_takeWhile,
    userEntries]
  intro p hp
  exact notMem_of_mem_getlines ((List.takeWhile_prefix _).subset hp)

/-! ### Logging out -/

section Logout

variable {master : Master} (hreach : Reached master sessionRow) {kvs : Tablet}

include hreach

/-- **A logout** leaves the entries before the first one of the session; the session with
the name of the list takes the list with it. -/
theorem activeEntries_handleLogout {activeUsers : Bytes}
    (hlist : kvs.cells (sessionRow, activeUsersColumn) = some activeUsers) (sid username : Bytes) :
    activeEntries ((handleLogout sid username).run (Call.exec master) kvs).2 =
      if sid = activeUsersColumn then []
      else (activeEntries kvs).takeWhile fun e => e.2 ≠ sid := by
  have hl : isErr (clientText (master sessionRow)) = false := hreach
  simp only [handleLogout, run_lookup_bind, hl, Bool.false_eq_true, if_false, run_Get_bind,
    run_Delete_bind, run_CPut_bind, Prog.run_pure, Tablet.text_of_some hlist]
  split_ifs with hsid
  · subst hsid
    have hgone : (kvs.delete sessionRow activeUsersColumn).cells (sessionRow, activeUsersColumn) =
        none := by
      rw [Tablet.cells_delete, Function.update_self]
    rw [Call.exec_cput_of_ne master _ (by simp [hgone]), activeEntries, hgone]
    rfl
  · have hkept : (kvs.delete sessionRow sid).cells (sessionRow, activeUsersColumn) =
        some activeUsers := by
      rw [Tablet.cells_delete, Function.update_of_ne, hlist]
      exact fun heq => hsid (Prod.mk.inj heq).2.symm
    have hold : activeEntries kvs = userEntries activeUsers := by
      rw [activeEntries, hlist]
      rfl
    rw [activeEntries, Call.cells_exec_cput_of_eq master _ hkept, Function.update_self, hold]
    exact userEntries_keepUntil sid activeUsers

/-- **A logout removes the entries of its session and no others exactly if** every entry
of another session behind the first one of the session also stands before it, and the
session does not have the name of the list while others are listed. -/
theorem logout_removes_iff (kvs : Tablet) (sid username : Bytes)
    (hsid : ∃ e ∈ activeEntries kvs, e.2 = sid) :
    (∀ e, e ∈ activeEntries ((handleLogout sid username).run (Call.exec master) kvs).2 ↔
      e ∈ activeEntries kvs ∧ e.2 ≠ sid) ↔
    (∀ e ∈ (activeEntries kvs).dropWhile (fun e => e.2 ≠ sid), e.2 ≠ sid →
      e ∈ (activeEntries kvs).takeWhile fun e => e.2 ≠ sid) ∧
    (sid = activeUsersColumn → ∀ e ∈ activeEntries kvs, e.2 = sid) := by
  obtain ⟨activeUsers, hlist⟩ : ∃ t, kvs.cells (sessionRow, activeUsersColumn) = some t := by
    obtain ⟨e, he, -⟩ := hsid
    rcases hcell : kvs.cells (sessionRow, activeUsersColumn) with _ | t
    · rw [activeEntries, hcell] at he
      exact absurd he List.not_mem_nil
    · exact ⟨t, rfl⟩
  rw [activeEntries_handleLogout hreach hlist]
  have hsplit := @List.takeWhile_append_dropWhile _ (fun e => decide (e.2 ≠ sid))
    (activeEntries kvs)
  split_ifs with hname
  · constructor
    · intro h
      have hall : ∀ e ∈ activeEntries kvs, e.2 = sid := fun e he =>
        by_contra fun hne => absurd ((h e).mpr ⟨he, hne⟩) List.not_mem_nil
      exact ⟨fun e he hne => absurd (hall e ((List.dropWhile_suffix _).subset he)) hne,
        fun _ => hall⟩
    · rintro ⟨-, hall⟩ e
      exact iff_of_false List.not_mem_nil fun ⟨he, hne⟩ => hne (hall hname e he)
  · constructor
    · intro h
      exact ⟨fun e he hne => (h e).mpr ⟨(List.dropWhile_suffix _).subset he, hne⟩,
        fun heq => absurd heq hname⟩
    · rintro ⟨hbehind, -⟩ e
      constructor
      · intro he
        have hother := List.mem_takeWhile_imp (p := fun e : Bytes × Bytes => decide (e.2 ≠ sid)) he
        exact ⟨(List.takeWhile_prefix _).subset he, of_decide_eq_true hother⟩
      · rintro ⟨he, hne⟩
        rw [← hsplit, List.mem_append] at he
        exact he.elim id fun hdrop => hbehind e hdrop hne

end Logout

/-- The rows after ann and bob have logged in. -/
def twoLogins : Sessions :=
  [SessionEvent.login (ascii "ann") [7], .login (ascii "bob") [9]].foldl
    (Sessions.step Master.first) ⟨∅, []⟩

example : activeEntries twoLogins.rows =
    [(ascii "ann", ascii "7"), (ascii "bob", ascii "9")] := by decide +kernel

/-- The session that was handed out last can be logged out. -/
theorem logout_last_removes :
    (∀ e, e ∈ activeEntries ((handleLogout (ascii "9") (ascii "bob")).run (Call.exec Master.first)
        twoLogins.rows).2 ↔ e ∈ activeEntries twoLogins.rows ∧ e.2 ≠ ascii "9") ↔
    (∀ e ∈ (activeEntries twoLogins.rows).dropWhile (fun e => e.2 ≠ ascii "9"), e.2 ≠ ascii "9" →
      e ∈ (activeEntries twoLogins.rows).takeWhile fun e => e.2 ≠ ascii "9") ∧
    (ascii "9" = activeUsersColumn → ∀ e ∈ activeEntries twoLogins.rows, e.2 = ascii "9") :=
  logout_removes_iff (isErr_lookup Master.up_first _) twoLogins.rows (ascii "9") (ascii "bob")
    ⟨(ascii "bob", ascii "9"), by decide +kernel, rfl⟩

/-- **Bob is no longer listed** when ann, who came before him, logs out. -/
theorem logout_removes_other :
    Runs.Reaches (Sessions.step Master.first) (fun _ _ => True) ⟨∅, []⟩ twoLogins ∧
    activeEntries twoLogins.rows = [(ascii "ann", ascii "7"), (ascii "bob", ascii "9")] ∧
    activeEntries ((handleLogout (ascii "7") (ascii "ann")).run (Call.exec Master.first)
      twoLogins.rows).2 = [] := by
  refine ⟨Runs.Reaches.foldl _ (fun _ _ _ => trivial) _, ?_, ?_⟩
  · decide +kernel
  · decide +kernel

end PennCloud
