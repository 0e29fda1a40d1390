import PennCloud.Frontend.Delivery

/-!
# User accounts

The account service (`frontend/user_account/user_account_service.cc`) keeps a
user's password in the column `password` of the row `<user>-userinfo`, and there
is nothing else to an account: a user exists when that cell is there.

The three operations look at the text of a `Get`, and each in its own way:
`PennCloud.authenticate` takes an empty text or one that begins with `ERR` for
"no such user", `PennCloud.signup` and `PennCloud.changePassword` only the
latter. None of them looks at what a write returns, so that one which is not
delivered goes unnoticed. So the service behaves as the map from users to passwords
it is meant to be (`PennCloud.AccountCall.apply`) as long as no password that is
stored is empty or begins with `ERR` and the calls that store it are delivered, and
no longer: `PennCloud.AccountCall.correct_iff_stores`.
-/

namespace PennCloud

open Wire Calls

/-! ### The operations -/

/-- The row of a user. -/
def userinfo (username : Bytes) : Bytes := username ++ ascii "-userinfo"

/-- The column of the password. -/
def passwordColumn : Bytes := ascii "password"

/-- `UserAccountService::authenticate`. -/
def authenticate (username password : Bytes) : Handler Bool := do
  let worker ← lookup (userinfo username)
  if isErr worker then return false
  else
    let stored ← Get (userinfo username) passwordColumn
    if isErr stored || stored.isEmpty then return false
    else return decide (stored = password)

/-- `UserAccountService::signup`. -/
def signup (username password : Bytes) : Handler Bool := do
  let worker ← lookup (userinfo username)
  if isErr worker then return false
  else
    let existing ← Get (userinfo username) passwordColumn
    if !isErr existing then return false
    else
      -- the outcome of the call is not looked at
      let _ ← Put (userinfo username) passwordColumn password
      return true

/-- `UserAccountService::changePassword`: 0 when the password was changed, 1 when
there is no such user, 2 when the old password is wrong, 3 when no worker can be
reached. -/
def changePassword (username oldPassword newPassword : Bytes) : Handler ℕ := do
  let worker ← lookup (userinfo username)
  if isErr worker then return 3
  else
    let stored ← Get (userinfo username) passwordColumn
    if isErr stored then return 1
    else if stored ≠ oldPassword then return 2
    else
      -- nor is it here
      let _ ← CPut (userinfo username) passwordColumn oldPassword newPassword
      return 0

/-- The stored password as a `Get` returns it. -/
def Tablet.password (kvs : Tablet) (username : Bytes) : Bytes :=
  kvs.text (userinfo username) passwordColumn

section Runs

variable {master : Master} (hup : master.Up) (kvs : Tablet)

include hup

theorem run_authenticate (u p : Bytes) :
    (authenticate u p).run (Call.exec master) kvs =
      (.ok (!(isErr (kvs.password u) || (kvs.password u).isEmpty) &&
        decide (kvs.password u = p)), kvs) := by
  have hl := isErr_lookup hup (userinfo u)
  simp only [authenticate, run_lookup_bind, hl, Bool.false_eq_true, if_false, run_Get_bind]
  rw [← Tablet.password]
  split_ifs with h
  · simp [h]
  · simp [h]

theorem run_signup (u p : Bytes) :
    (signup u p).run (Call.exec master) kvs =
      if isErr (kvs.password u) then (.ok true, kvs.put (userinfo u) passwordColumn p)
      else (.ok false, kvs) := by
  have hl := isErr_lookup hup (userinfo u)
  simp only [signup, run_lookup_bind, hl, Bool.false_eq_true, if_false, run_Get_bind]
  rw [← Tablet.password]
  rcases isErr (kvs.password u) with _ | _
  · rfl
  · rfl

theorem run_changePassword (u old new : Bytes) :
    (changePassword u old new).run (Call.exec master) kvs =
      if isErr (kvs.password u) then (.ok 1, kvs)
      else if kvs.password u ≠ old then (.ok 2, kvs)
      else (.ok 0, (Call.exec master (.update (.cput (userinfo u) passwordColumn old new)) kvs).2)
    := by
  have hl := isErr_lookup hup (userinfo u)
  simp only [changePassword, run_lookup_bind, hl, Bool.false_eq_true, if_false, run_Get_bind]
  rw [← Tablet.password]
  split_ifs <;> rfl

end Runs

/-- A password that is told apart from "no such user" by all three operations. -/
def Plain (p : Bytes) : Prop := p ≠ [] ∧ isErr p = false

instance (p : Bytes) : Decidable (Plain p) := inferInstanceAs (Decidable (_ ∧ _))

/-- What a handler returns on the rows of the store. -/
def returns {α : Type} (master : Master) (kvs : Tablet) (h : Handler α) (a : α) : Prop :=
  (h.run (Call.exec master) kvs).1 = .ok a

/-- The cell of a user's password. -/
def passwordCell (u : Bytes) : Bytes × Bytes := (userinfo u, passwordColumn)

theorem passwordCell_injective : Function.Injective passwordCell := by
  intro u v h
  exact List.append_cancel_right (Prod.mk.inj h).1

/-- A user has no password, or one that is read. -/
theorem password_cases (kvs : Tablet) (u : Bytes) :
    (kvs.cells (passwordCell u) = none ∧ isErr (kvs.password u) = true) ∨
      ∃ q, kvs.cells (passwordCell u) = some q ∧ kvs.password u = q := by
  rcases hc : kvs.cells (passwordCell u) with _ | q
  · exact Or.inl ⟨rfl, Tablet.isErr_of_none hc⟩
  · exact Or.inr ⟨q, rfl, Tablet.text_of_some hc⟩

/-! ### The map from users to passwords -/

/-- A call of the service. -/
inductive AccountCall where
  /-- `signup`. -/
  | signup (username password : Bytes)
  /-- `changePassword`. -/
  | changePassword (username oldPassword newPassword : Bytes)
  /-- `authenticate`. -/
  | authenticate (username password : Bytes)

/-- What a handler returns when its calls go over the network. -/
def answers {α : Type} (refused : Call → Status) (master : Master) (kvs : Tablet) (h : Handler α)
    (a : α) : Prop := (h.run (Call.send refused master) kvs).1 = .ok a

/-- The calls that write these values into the cell of a user's password are
delivered. -/
def Sendable (u : Bytes) (values : List Bytes) : Prop :=
  isUtf8 u = true ∧ fieldSize (userinfo u) + fieldSize passwordColumn +
    (values.map fieldSize).sum ≤ maxMessage

instance (u : Bytes) (values : List Bytes) : Decidable (Sendable u values) :=
  inferInstanceAs (Decidable (_ ∧ _))

namespace AccountCall

/-- What the call is meant to do to the passwords. -/
def apply (m : Bytes → Option Bytes) : AccountCall → Bytes → Option Bytes
  | .signup u p => if m u = none then Function.update m u (some p) else m
  | .changePassword u old new => if m u = some old then Function.update m u (some new) else m
  | .authenticate _ _ => m

/-- The passwords after a sequence of calls. -/
def passwords (calls : List AccountCall) : Bytes → Option Bytes := calls.foldl apply fun _ => none

/-- What the call does to the rows. -/
def step (refused : Call → Status) (master : Master) (kvs : Tablet) : AccountCall → Tablet
  | .signup u p => ((PennCloud.signup u p).run (Call.send refused master) kvs).2
  | .changePassword u old new =>
    ((PennCloud.changePassword u old new).run (Call.send refused master) kvs).2
  | .authenticate u p => ((PennCloud.authenticate u p).run (Call.send refused master) kvs).2

/-- **The contract of a call** made after the calls `before`, on the rows `kvs`
they have left. -/
def Correct (refused : Call → Status) (master : Master) (before : List AccountCall) (kvs : Tablet)
    (c : AccountCall) : Prop :=
  match c with
  | .signup u p =>
    (answers refused master kvs (PennCloud.signup u p) true ↔ ∀ q, .signup u q ∉ before) ∧
      (answers refused master kvs (PennCloud.signup u p) true →
        answers refused master (c.step refused master kvs) (PennCloud.authenticate u p) true) ∧
      (¬answers refused master kvs (PennCloud.signup u p) true → ∀ q,
        (answers refused master (c.step refused master kvs) (PennCloud.authenticate u q) true ↔
          answers refused master kvs (PennCloud.authenticate u q) true))
  | .changePassword u old new =>
    (answers refused master kvs (PennCloud.changePassword u old new) 0 ↔
        answers refused master kvs (PennCloud.authenticate u old) true) ∧
      (answers refused master kvs (PennCloud.changePassword u old new) 0 →
        answers refused master (c.step refused master kvs) (PennCloud.authenticate u new) true ∧
          (answers refused master (c.step refused master kvs) (PennCloud.authenticate u old) true ↔
            old = new))
  | .authenticate u p =>
    answers refused master kvs (PennCloud.authenticate u p) true ↔
      AccountCall.passwords before u = some p

/-- **The call stores what it is given**: it does not get as far as storing a password,
or the password is plain and the call that writes it is delivered – unless nothing is to
be changed by that. -/
def Stores (m : Bytes → Option Bytes) : AccountCall → Prop
  | .signup u p => m u = none → Plain p ∧ Sendable u [p]
  | .changePassword u old new =>
    m u = some old → Plain new ∧ (old = new ∨ Sendable u [old, new])
  | .authenticate _ _ => True

end AccountCall

/-! ### The calls of the operations -/

section Sendable

variable {kvs : Tablet} {u : Bytes}

theorem isUtf8_userinfo (u : Bytes) : isUtf8 (userinfo u) = isUtf8 u :=
  isUtf8_append_ascii (by decide) (by decide +kernel) u

/-- The call that writes the password. -/
theorem delivered_update_iff {w : Update} (hrow : w.row = userinfo u)
    (hcolumn : w.column = passwordColumn) :
    (Call.update w).delivered kvs = true ↔ Sendable u w.values := by
  have hutf8 : isUtf8 passwordColumn = true := by decide
  simp only [Call.delivered_eq_true_iff, Call.strings, Call.requestSize, Call.values,
    Call.replySize, hrow, hcolumn, List.all_cons, List.all_nil, hutf8, isUtf8_userinfo,
    Bool.and_true, Sendable, List.cons_append, List.nil_append, List.map_cons, List.sum_cons,
    Nat.zero_le, and_true, Nat.add_assoc]

theorem delivered_put_iff {p : Bytes} :
    (Call.update (.put (userinfo u) passwordColumn p)).delivered kvs = true ↔ Sendable u [p] :=
  delivered_update_iff rfl rfl

theorem delivered_cput_iff {old new : Bytes} :
    (Call.update (.cput (userinfo u) passwordColumn old new)).delivered kvs = true ↔
      Sendable u [old, new] :=
  delivered_update_iff rfl rfl

/-- With the write, what comes before it is delivered. -/
theorem Sendable.delivered_lookup {values : List Bytes} (h : Sendable u values) :
    (Call.lookup (userinfo u)).delivered kvs = true := by
  obtain ⟨hu, hsize⟩ := h
  simp only [Call.delivered_eq_true_iff, Call.strings, Call.requestSize, Call.values,
    Call.replySize, List.all_cons, List.all_nil, isUtf8_userinfo, hu, Bool.and_true,
    List.append_nil, List.map_cons, List.map_nil, List.sum_cons, List.sum_nil, true_and]
  omega

/-- A password that was written can be read. -/
theorem Sendable.delivered_get {q : Bytes} (h : Sendable u [q])
    (hcell : kvs.cells (passwordCell u) = some q) :
    (Call.get (userinfo u) passwordColumn).delivered kvs = true := by
  obtain ⟨hu, hsize⟩ := h
  have hcolumn : isUtf8 passwordColumn = true := by decide
  have hrow : 3 ≤ fieldSize (userinfo u) :=
    three_le_fieldSize (List.append_ne_nil_of_right_ne_nil _ (by decide))
  have hget : kvs.get (userinfo u) passwordColumn = .ok q := by
    rcases Tablet.get_cells kvs (userinfo u) passwordColumn with ⟨v, hv, hget⟩ | ⟨hnone, -⟩
    · rw [hget, Option.some.inj (hv.symm.trans hcell)]
    · exact absurd (hnone.symm.trans hcell) (by simp)
  simp only [List.map_cons, List.map_nil, List.sum_cons, List.sum_nil] at hsize
  simp only [Call.delivered_eq_true_iff, Call.strings, Call.requestSize, Call.values,
    Call.replySize, List.all_cons, List.all_nil, isUtf8_userinfo, hu, hcolumn, Bool.and_true,
    List.append_nil, List.map_cons, List.map_nil, List.sum_cons, List.sum_nil, true_and, hget]
  omega

theorem Sendable.tail {v : Bytes} {values : List Bytes} (h : Sendable u (v :: values)) :
    Sendable u values := by
  obtain ⟨hu, hsize⟩ := h
  rw [List.map_cons, List.sum_cons] at hsize
  exact ⟨hu, by omega⟩

end Sendable

/-! ### What the operations do -/

section Answers

variable {refused : Call → Status} {master : Master} {kvs : Tablet}

/-- A call goes first, and what comes after it runs on what it has left. -/
theorem run_ask_bind {α : Type} (c : Call) (f : Bytes → Handler α) :
    (Prog.ask c >>= f).run (Call.send refused master) kvs =
      (f (c.send refused master kvs).1).run (Call.send refused master)
        (c.send refused master kvs).2 := rfl

/-- The stored password as the service receives it. -/
def sentPassword (refused : Call → Status) (master : Master) (kvs : Tablet) (u : Bytes) : Bytes :=
  ((Call.get (userinfo u) passwordColumn).send refused master kvs).1

theorem send_get (row column : Bytes) :
    ((Call.get row column).send refused master kvs).2 = kvs := by
  rw [Call.send]
  split_ifs <;> rfl

variable (hup : master.Up)

include hup

variable (refused kvs) in
/-- A `Lookup` fails when it is not delivered, and leaves the rows alone. -/
theorem send_lookup (u : Bytes) :
    isErr ((Call.lookup (userinfo u)).send refused master kvs).1 =
        !(Call.lookup (userinfo u)).delivered kvs ∧
      ((Call.lookup (userinfo u)).send refused master kvs).2 = kvs := by
  rcases hd : (Call.lookup (userinfo u)).delivered kvs with _ | _
  · rw [Call.send_of_not_delivered hd]
    exact ⟨isErr_err _, rfl⟩
  · rw [Call.send_of_delivered hd]
    exact ⟨isErr_lookup hup _, rfl⟩

theorem send_authenticate (u p : Bytes) :
    (authenticate u p).run (Call.send refused master) kvs =
      (.ok ((Call.lookup (userinfo u)).delivered kvs &&
        (!(isErr (sentPassword refused master kvs u) ||
          (sentPassword refused master kvs u).isEmpty) &&
            decide (sentPassword refused master kvs u = p))), kvs) := by
  obtain ⟨hlookup, hkept⟩ := send_lookup refused kvs hup u
  rw [authenticate, lookup, run_ask_bind, hlookup, hkept]
  rcases (Call.lookup (userinfo u)).delivered kvs with _ | _
  · rfl
  · simp only [Bool.not_true, Bool.false_eq_true, if_false, Get, run_ask_bind, send_get,
      Bool.true_and]
    rw [← sentPassword]
    split_ifs with h
    · simp [h]
    · simp [h]

theorem send_signup (u p : Bytes) :
    (signup u p).run (Call.send refused master) kvs =
      if (Call.lookup (userinfo u)).delivered kvs && isErr (sentPassword refused master kvs u) then
        (.ok true, ((Call.update (.put (userinfo u) passwordColumn p)).send refused master kvs).2)
      else (.ok false, kvs) := by
  obtain ⟨hlookup, hkept⟩ := send_lookup refused kvs hup u
  rw [signup, lookup, run_ask_bind, hlookup, hkept]
  rcases (Call.lookup (userinfo u)).delivered kvs with _ | _
  · rfl
  · simp only [Bool.not_true, Bool.false_eq_true, if_false, Get, run_ask_bind, send_get,
      Bool.true_and]
    rw [← sentPassword]
    rcases isErr (sentPassword refused master kvs u) with _ | _
    · rfl
    · rfl

theorem send_changePassword (u old new : Bytes) :
    (changePassword u old new).run (Call.send refused master) kvs =
      if (Call.lookup (userinfo u)).delivered kvs = false then (.ok 3, kvs)
      else if isErr (sentPassword refused master kvs u) then (.ok 1, kvs)
      else if sentPassword refused master kvs u ≠ old then (.ok 2, kvs)
      else (.ok 0, ((Call.update (.cput (userinfo u) passwordColumn old new)).send refused master
        kvs).2) := by
  obtain ⟨hlookup, hkept⟩ := send_lookup refused kvs hup u
  rw [changePassword, lookup, run_ask_bind, hlookup, hkept]
  rcases (Call.lookup (userinfo u)).delivered kvs with _ | _
  · rfl
  · simp only [Bool.not_true, Bool.false_eq_true, if_false, Get, run_ask_bind, send_get,
      Bool.true_eq_false]
    rw [← sentPassword]
    split_ifs <;> rfl

/-- **Who is let in** has the password that was given, and it is plain. -/
theorem cells_of_answers_authenticate {u p : Bytes}
    (h : answers refused master kvs (authenticate u p) true) :
    kvs.cells (passwordCell u) = some p ∧ Plain p := by
  rw [answers, send_authenticate hup] at h
  obtain ⟨-, ⟨herr, hne⟩, rfl⟩ : (Call.lookup (userinfo u)).delivered kvs = true ∧
      (isErr (sentPassword refused master kvs u) = false ∧
        sentPassword refused master kvs u ≠ []) ∧ sentPassword refused master kvs u = p := by
    simpa using h
  refine ⟨?_, hne, herr⟩
  -- the text does not read as an error, so the `Get` was delivered and found something
  rcases hd : (Call.get (userinfo u) passwordColumn).delivered kvs with _ | _
  · rw [sentPassword, Call.send_of_not_delivered hd, isErr_err] at herr
    exact absurd herr (by simp)
  · have htext : sentPassword refused master kvs u = kvs.password u := by
      rw [sentPassword, Call.send_of_delivered hd]
      rfl
    rw [htext] at herr ⊢
    rcases password_cases kvs u with ⟨-, hnone⟩ | ⟨q, hq, hpassword⟩
    · exact absurd (hnone.symm.trans herr) (by simp)
    · rw [hpassword]
      exact hq

theorem answers_changePassword_iff {u old new : Bytes} :
    answers refused master kvs (changePassword u old new) 0 ↔
      (Call.lookup (userinfo u)).delivered kvs = true ∧
        isErr (sentPassword refused master kvs u) = false ∧
          sentPassword refused master kvs u = old := by
  rw [answers, send_changePassword hup]
  split_ifs with hlookup herr hne
  · simp [hlookup]
  · simp [herr]
  · simp [hne]
  · simp only [Bool.not_eq_false] at hlookup
    simp only [Bool.not_eq_true] at herr
    exact iff_of_true rfl ⟨hlookup, herr, not_not.mp hne⟩

theorem answers_signup_iff {u p : Bytes} :
    answers refused master kvs (signup u p) true ↔
      (Call.lookup (userinfo u)).delivered kvs = true ∧
        isErr (sentPassword refused master kvs u) = true := by
  rw [answers, send_signup hup]
  split_ifs with h
  · exact iff_of_true rfl ((Bool.and_eq_true _ _).mp h)
  · refine iff_of_false (by simp) fun hc => h ?_
    rw [hc.1, hc.2]
    rfl

end Answers

/-! ### Sequences of calls -/

namespace AccountCall

/-- The rows after a sequence of calls. -/
def rows (refused : Call → Status) (master : Master) (kvs : Tablet) (calls : List AccountCall) :
    Tablet :=
  calls.foldl (step refused master) kvs

theorem passwords_concat (calls : List AccountCall) (c : AccountCall) :
    passwords (calls ++ [c]) = c.apply (passwords calls) := by
  simp [passwords]

theorem rows_concat (refused : Call → Status) (master : Master) (kvs : Tablet)
    (calls : List AccountCall) (c : AccountCall) :
    rows refused master kvs (calls ++ [c]) =
      c.step refused master (rows refused master kvs calls) := by
  simp [rows]

/-- A user has a password when they have signed up. -/
theorem passwords_eq_none_iff (calls : List AccountCall) (u : Bytes) :
    passwords calls u = none ↔ ∀ q, .signup u q ∉ calls := by
  induction calls using List.reverseRecOn with
  | nil => simp [passwords]
  | append_singleton calls c ih =>
    rw [passwords_concat]
    cases c with
    | signup v p =>
      rcases eq_or_ne u v with rfl | hne
      · have hsome : apply (passwords calls) (.signup u p) u ≠ none := by
          by_cases hu : passwords calls u = none
          · simp [apply, hu]
          · simp [apply, hu]
        refine ⟨fun hnone => absurd hnone hsome, fun hno => ?_⟩
        exact absurd (List.mem_append_right calls (List.mem_singleton_self _)) (hno p)
      · by_cases hv : passwords calls v = none
        · simp [apply, hv, ih, hne]
        · simp [apply, hv, ih, hne]
    | changePassword v old new =>
      rcases eq_or_ne u v with rfl | hne
      · by_cases hu : passwords calls u = some old
        · have hsigned : ∃ q, .signup u q ∈ calls := by
            by_contra hno
            have hnone := ih.mpr fun q hq => hno ⟨q, hq⟩
            exact absurd (hnone.symm.trans hu) (by simp)
          simpa [apply, hu] using hsigned
        · simp [apply, hu, ih]
      · by_cases hv : passwords calls v = some old
        · simp [apply, hv, Function.update_of_ne hne, ih]
        · simp [apply, hv, ih]
    | authenticate v p => simp [apply, ih]

/-- Every call of a sequence meets its contract. -/
def AllCorrect (refused : Call → Status) (master : Master) (kvs : Tablet)
    (calls : List AccountCall) : Prop :=
  Runs.Each (fun before c => Correct refused master before (rows refused master kvs before) c) calls

/-- Every call of a sequence stores what it is given. -/
def AllStore (calls : List AccountCall) : Prop :=
  Runs.Each (fun before c => Stores (passwords before) c) calls

/-- The rows hold the passwords of a map, all of them plain and such as can be read. -/
structure Holds (kvs : Tablet) (m : Bytes → Option Bytes) : Prop where
  /-- Every user's cell is what the map says. -/
  cells : ∀ u, kvs.cells (passwordCell u) = m u
  /-- The passwords are plain. -/
  plain : ∀ u p, m u = some p → Plain p
  /-- The calls that read them are delivered. -/
  sendable : ∀ u p, m u = some p → Sendable u [p]

section Holds

variable {refused : Call → Status} {master : Master} {kvs : Tablet} {m : Bytes → Option Bytes}

/-- Storing a password stores it in the map. -/
theorem Holds.update (h : Holds kvs m) {kvs' : Tablet} {u p : Bytes} (hplain : Plain p)
    (hsend : Sendable u [p])
    (hcells : kvs'.cells = Function.update kvs.cells (passwordCell u) (some p)) :
    Holds kvs' (Function.update m u (some p)) := by
  have hsame : ∀ v q, Function.update m u (some p) v = some q →
      v = u ∧ q = p ∨ m v = some q := by
    intro v q hv
    rcases eq_or_ne v u with rfl | hne
    · rw [Function.update_self] at hv
      exact Or.inl ⟨rfl, (Option.some.inj hv).symm⟩
    · rw [Function.update_of_ne hne] at hv
      exact Or.inr hv
  refine ⟨fun v => ?_, fun v q hv => ?_, fun v q hv => ?_⟩
  · rw [hcells]
    rcases eq_or_ne v u with rfl | hne
    · rw [Function.update_self, Function.update_self]
    · rw [Function.update_of_ne (passwordCell_injective.ne hne), Function.update_of_ne hne, h.cells]
  · rcases hsame v q hv with ⟨-, rfl⟩ | hold
    · exact hplain
    · exact h.plain v q hold
  · rcases hsame v q hv with ⟨rfl, rfl⟩ | hold
    · exact hsend
    · exact h.sendable v q hold

variable (refused master) in
/-- The password of a user who has one is received. -/
theorem Holds.sentPassword_of_some (h : Holds kvs m) {u q : Bytes} (hu : m u = some q) :
    (Call.lookup (userinfo u)).delivered kvs = true ∧ sentPassword refused master kvs u = q := by
  have hcell : kvs.cells (passwordCell u) = some q := (h.cells u).trans hu
  have hsend := h.sendable u q hu
  refine ⟨hsend.delivered_lookup, ?_⟩
  rw [sentPassword, Call.send_of_delivered (hsend.delivered_get hcell)]
  exact Tablet.text_of_some hcell

/-- Of one who has none, an error. -/
theorem Holds.sentPassword_of_none (h : Holds kvs m) {u : Bytes} (hu : m u = none) :
    isErr (sentPassword refused master kvs u) = true := by
  rw [sentPassword]
  rcases hd : (Call.get (userinfo u) passwordColumn).delivered kvs with _ | _
  · rw [Call.send_of_not_delivered hd]
    exact isErr_err _
  · rw [Call.send_of_delivered hd]
    exact Tablet.isErr_of_none ((h.cells u).trans hu)

variable (hup : master.Up)

include hup

theorem Holds.answers_authenticate (h : Holds kvs m) (u p : Bytes) :
    answers refused master kvs (PennCloud.authenticate u p) true ↔ m u = some p := by
  constructor
  · intro ha
    exact (h.cells u).symm.trans (cells_of_answers_authenticate hup ha).1
  · intro hu
    obtain ⟨hlookup, htext⟩ := h.sentPassword_of_some refused master hu
    obtain ⟨hne, herr⟩ := h.plain u p hu
    rw [answers, send_authenticate hup, hlookup, htext]
    simp [herr, hne]

variable (refused) in
theorem Holds.answers_signup (h : Holds kvs m) (u p : Bytes) :
    answers refused master kvs (PennCloud.signup u p) true ↔
      m u = none ∧ (Call.lookup (userinfo u)).delivered kvs = true := by
  rw [answers_signup_iff hup]
  rcases hu : m u with _ | q
  · simp [h.sentPassword_of_none hu]
  · obtain ⟨hlookup, htext⟩ := h.sentPassword_of_some refused master hu
    simp [htext, (h.plain u q hu).2]

variable (refused) in
theorem Holds.answers_changePassword (h : Holds kvs m) (u old new : Bytes) :
    answers refused master kvs (PennCloud.changePassword u old new) 0 ↔ m u = some old := by
  rw [answers_changePassword_iff hup]
  rcases hu : m u with _ | q
  · simp [h.sentPassword_of_none hu]
  · obtain ⟨hlookup, htext⟩ := h.sentPassword_of_some refused master hu
    simp [hlookup, htext, (h.plain u q hu).2]

/-- The rows after a signup: the `Put` is made for a user who has no password. -/
theorem Holds.step_signup (h : Holds kvs m) (u p : Bytes) :
    step refused master kvs (.signup u p) =
      if m u = none ∧ (Call.lookup (userinfo u)).delivered kvs = true then
        ((Call.update (.put (userinfo u) passwordColumn p)).send refused master kvs).2
      else kvs := by
  have hiff := (h.answers_signup refused hup u p).symm.trans (answers_signup_iff hup)
  rw [step, send_signup hup]
  by_cases hc : m u = none ∧ (Call.lookup (userinfo u)).delivered kvs = true
  · obtain ⟨hlookup, herr⟩ := hiff.mp hc
    rw [if_pos hc, hlookup, herr]
    rfl
  · have hnot : ¬((Call.lookup (userinfo u)).delivered kvs &&
        isErr (sentPassword refused master kvs u)) = true := by
      rw [Bool.and_eq_true]
      exact fun hboth => hc (hiff.mpr hboth)
    rw [if_neg hc, if_neg hnot]

/-- The rows after a change: the `CPut` is made with the password there is. -/
theorem Holds.step_changePassword (h : Holds kvs m) (u old new : Bytes) :
    step refused master kvs (.changePassword u old new) =
      if m u = some old then
        ((Call.update (.cput (userinfo u) passwordColumn old new)).send refused master kvs).2
      else kvs := by
  have hiff := (h.answers_changePassword refused hup u old new).symm.trans
    (answers_changePassword_iff hup)
  rw [step, send_changePassword hup]
  by_cases hc : m u = some old
  · obtain ⟨hlookup, herr, htext⟩ := hiff.mp hc
    rw [if_pos hc, hlookup, herr, htext]
    simp
  · rw [if_neg hc]
    split_ifs with hlookup herr hne
    · rfl
    · rfl
    · rfl
    · refine absurd (hiff.mpr ⟨?_, ?_, not_not.mp hne⟩) hc
      · simpa using hlookup
      · simpa using herr

theorem step_authenticate (u p : Bytes) :
    step refused master kvs (.authenticate u p) = kvs := by
  rw [step, send_authenticate hup]

variable (refused) in
/-- **A call that stores what it is given** does to the rows what it is meant to do to
the passwords. -/
theorem Holds.step (h : Holds kvs m) {c : AccountCall} (hc : c.Stores m) :
    Holds (c.step refused master kvs) (c.apply m) := by
  cases c with
  | signup u p =>
    rw [h.step_signup hup, apply]
    by_cases hu : m u = none
    · obtain ⟨hplain, hsend⟩ := hc hu
      rw [if_pos ⟨hu, hsend.delivered_lookup⟩, if_pos hu,
        Call.send_of_delivered (delivered_put_iff.mpr hsend)]
      exact h.update hplain hsend (Call.cells_exec_put master kvs _ _ p)
    · rw [if_neg fun hboth => hu hboth.1, if_neg hu]
      exact h
  | changePassword u old new =>
    rw [h.step_changePassword hup, apply]
    by_cases hu : m u = some old
    · obtain ⟨hplain, hor⟩ := hc hu
      rw [if_pos hu, if_pos hu]
      have hcell : kvs.cells (passwordCell u) = some old := (h.cells u).trans hu
      rcases hd : (Call.update (.cput (userinfo u) passwordColumn old new)).delivered kvs with _ | _
      · -- nothing is written, and nothing was to be changed
        obtain rfl : old = new := hor.resolve_right fun hsend => by
          rw [delivered_cput_iff.mpr hsend] at hd
          exact absurd hd (by simp)
        rw [Call.send_of_not_delivered hd, ← hu, Function.update_eq_self]
        exact h
      · have hsend := delivered_cput_iff.mp hd
        rw [Call.send_of_delivered hd]
        exact h.update hplain hsend.tail (Call.cells_exec_cput_of_eq master kvs hcell)
    · rw [if_neg hu, if_neg hu]
      exact h
  | authenticate u p =>
    rw [step_authenticate hup]
    exact h

/-- **One call is correct exactly when it stores what it is given.** -/
theorem Holds.correct_iff (h : Holds kvs m) {calls : List AccountCall} (hm : m = passwords calls)
    (c : AccountCall) : c.Correct refused master calls kvs ↔ c.Stores m := by
  cases c with
  | signup u p =>
    have hret := h.answers_signup refused hup u p
    have hnew : (∀ q, .signup u q ∉ calls) ↔ m u = none := by rw [hm, passwords_eq_none_iff]
    constructor
    · rintro ⟨hfirst, hafter, -⟩ hu
      -- the password opens the account, so it is in its cell, and it was not there before
      obtain ⟨hcell, hplain⟩ :=
        cells_of_answers_authenticate hup (hafter (hfirst.mpr (hnew.mpr hu)))
      refine ⟨hplain, ?_⟩
      rcases hd : (Call.update (.put (userinfo u) passwordColumn p)).delivered kvs with _ | _
      · have hkept : (AccountCall.signup u p).step refused master kvs = kvs := by
          rw [h.step_signup hup, Call.send_of_not_delivered hd, ite_self]
        rw [hkept, h.cells, hu] at hcell
        exact absurd hcell (by simp)
      · exact delivered_put_iff.mp hd
    · intro hc
      have hstep := h.step refused hup hc
      refine ⟨?_, fun ha => ?_, fun ha q => ?_⟩
      · rw [hret, hnew]
        exact ⟨fun hu => hu.1, fun hu => ⟨hu, (hc hu).2.delivered_lookup⟩⟩
      · obtain ⟨hu, -⟩ := hret.mp ha
        rw [hstep.answers_authenticate hup, apply, if_pos hu, Function.update_self]
      · have hkept : (AccountCall.signup u p).step refused master kvs = kvs := by
          rw [h.step_signup hup, if_neg (mt hret.mpr ha)]
        rw [hkept]
  | changePassword u old new =>
    have hret := h.answers_changePassword refused hup u old new
    constructor
    · rintro ⟨-, hafter⟩ hu
      obtain ⟨hcell, hplain⟩ := cells_of_answers_authenticate hup (hafter (hret.mpr hu)).1
      refine ⟨hplain, ?_⟩
      rcases hd : (Call.update (.cput (userinfo u) passwordColumn old new)).delivered kvs with _ | _
      · have hkept : (AccountCall.changePassword u old new).step refused master kvs = kvs := by
          rw [h.step_changePassword hup, Call.send_of_not_delivered hd, ite_self]
        rw [hkept, h.cells, hu] at hcell
        exact Or.inl (Option.some.inj hcell)
      · exact Or.inr (delivered_cput_iff.mp hd)
    · intro hc
      have hstep := h.step refused hup hc
      refine ⟨hret.trans (h.answers_authenticate hup u old).symm, fun ha => ?_⟩
      have hu := hret.mp ha
      rw [hstep.answers_authenticate hup, hstep.answers_authenticate hup, apply, if_pos hu,
        Function.update_self]
      exact ⟨rfl, fun heq => (Option.some.inj heq).symm, fun heq => by rw [heq]⟩
  | authenticate u p =>
    refine ⟨fun _ => trivial, fun _ => ?_⟩
    rw [Correct, h.answers_authenticate hup, hm]

end Holds

section Main

variable {refused : Call → Status} {master : Master} (hup : master.Up) {kvs : Tablet}
  (h0 : ∀ u, kvs.cells (passwordCell u) = none)

include hup h0

/-- Calls that store what they are given leave the rows the map describes. -/
theorem holds_rows {calls : List AccountCall} (h : AllStore calls) :
    Holds (rows refused master kvs calls) (passwords calls) := by
  induction calls using List.reverseRecOn with
  | nil =>
    exact ⟨h0, fun u p hp => absurd hp (by simp [passwords]),
      fun u p hp => absurd hp (by simp [passwords])⟩
  | append_singleton calls c ih =>
    obtain ⟨hcalls, hc⟩ := Runs.each_concat.mp h
    rw [rows_concat, passwords_concat]
    exact (ih hcalls).step refused hup hc

/-- **The service behaves as a map from users to passwords exactly as long as the
passwords it stores are plain and the calls that store them are delivered.** -/
theorem correct_iff_stores (calls : List AccountCall) :
    AllCorrect refused master kvs calls ↔ AllStore calls := by
  induction calls using List.reverseRecOn with
  | nil => exact ⟨fun _ => Runs.each_nil _, fun _ => Runs.each_nil _⟩
  | append_singleton calls c ih =>
    rw [AllCorrect, AllStore, Runs.each_concat, Runs.each_concat]
    refine (and_congr_left' ih).trans (and_congr_right fun hcalls => ?_)
    exact (holds_rows hup h0 hcalls).correct_iff hup rfl c

end Main

/-- An ordinary history: a signup, a change of the password, and a signup of the
same user once more. -/
theorem correct_signup_change :
    AllCorrect refusedInternal Master.first ∅ ([.signup (ascii "ann") (ascii "one")] ++
      [.changePassword (ascii "ann") (ascii "one") (ascii "two")] ++
      [.signup (ascii "ann") (ascii "three")]) := by
  refine (correct_iff_stores Master.up_first (fun _ => rfl) _).mpr ?_
  refine Runs.each_concat.mpr ⟨Runs.each_concat.mpr ⟨?_, ?_⟩, ?_⟩
  · exact (@Runs.each_concat _ _ [] _).mpr ⟨Runs.each_nil _, fun _ => by decide⟩
  · exact fun _ => by decide
  · intro h
    exact absurd h (by decide)

/-- **A password that begins with `ERR`**: the user signs up with it, and is not
let in with it. -/
theorem err_password_refused :
    ¬AllCorrect refusedInternal Master.first ∅ [.signup (ascii "ann") (ascii "ERROR")] := by
  intro h
  have hholds : Holds ∅ (passwords []) :=
    ⟨fun _ => rfl, fun u p hp => absurd hp (by simp [passwords]),
      fun u p hp => absurd hp (by simp [passwords])⟩
  have hstores := (hholds.correct_iff Master.up_first rfl _).mp (h [] _ [] rfl)
  exact absurd (hstores rfl).1.2 (by decide)

end AccountCall

end PennCloud
