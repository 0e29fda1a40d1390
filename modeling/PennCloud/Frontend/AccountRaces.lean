import PennCloud.Frontend.Accounts

/-!
# Account operations at the same time

Several front ends may work on the account of one user at once. `signup` reads
the cell of the password and then writes it blindly; `changePassword` reads it,
writes it with a `CPut`, and does not look at the outcome. In both the write may
come too late: the operation then reports success although another one has been
there in between (`PennCloud.two_signups_succeed`).

An operation is **undisturbed** when what it read still holds as it comes to
write: the user is still without a password when a `signup` puts one, the stored
password is still the old one when a `changePassword` replaces it. As long as all
of them are, at most one `signup` succeeds and the account changes hands from one
successful operation to the next (`PennCloud.atomic_of_undisturbed`), for any
number of operations and any interleaving of their calls.
-/

namespace PennCloud

open Wire Calls

/-! ### Operations on one account -/

/-- An operation that changes an account. -/
inductive AccountOp where
  /-- `signup`. -/
  | signup (password : Bytes)
  /-- `changePassword`. -/
  | changePassword (oldPassword newPassword : Bytes)

namespace AccountOp

/-- The operation on the account of `username`. -/
def handler (username : Bytes) : AccountOp → Handler (Bool ⊕ ℕ)
  | .signup password => PennCloud.signup username password >>= fun b => pure (.inl b)
  | .changePassword old new => PennCloud.changePassword username old new >>= fun n => pure (.inr n)

/-- The one write an operation may come to. -/
def write (username : Bytes) : AccountOp → Update
  | .signup password => .put (userinfo username) passwordColumn password
  | .changePassword old new => .cput (userinfo username) passwordColumn old new

/-- What an operation returns when it reports success. -/
def success : AccountOp → Bool ⊕ ℕ
  | .signup _ => .inl true
  | .changePassword _ _ => .inr 0

/-- The password an operation stores. -/
def stored : AccountOp → Bytes
  | .signup password => password
  | .changePassword _ new => new

end AccountOp

/-- What is left of a program that reads, and then either ends without success or
makes one write and reports success. -/
def Pending {α : Type} (u : Update) (success : α) : Handler α → Prop
  | .done a => a ≠ success
  | .fail _ => True
  | .call (.update u') k => u' = u ∧ ∀ r, k r = .done success
  | .call (.lookup _) k => ∀ r, Pending u success (k r)
  | .call (.get _ _) k => ∀ r, Pending u success (k r)

section Pending

variable {α : Type} {u : Update} {a : α}

theorem pending_pure {b : α} : Pending u a (pure b) ↔ b ≠ a := Iff.rfl

theorem pending_lookup {key : Bytes} {f : Bytes → Handler α} :
    Pending u a (lookup key >>= f) ↔ ∀ r, Pending u a (f r) := Iff.rfl

theorem pending_Get {row column : Bytes} {f : Bytes → Handler α} :
    Pending u a (Get row column >>= f) ↔ ∀ r, Pending u a (f r) := Iff.rfl

theorem Pending.not_done {p : Handler α} (h : Pending u a p) : p ≠ .done a := by
  rintro rfl
  exact h rfl

end Pending

theorem pending_handler (username : Bytes) (op : AccountOp) :
    Pending (op.write username) op.success (op.handler username) := by
  cases op with
  | signup password =>
    simp only [AccountOp.handler, signup, Prog.bind_bind, Prog.ite_bind, Prog.pure_bind,
      pending_lookup]
    intro worker
    split_ifs with hw
    · simp [pending_pure, AccountOp.success]
    · rw [pending_Get]
      intro existing
      split_ifs with he
      · simp [pending_pure, AccountOp.success]
      · exact ⟨rfl, fun _ => rfl⟩
  | changePassword old new =>
    simp only [AccountOp.handler, changePassword, Prog.bind_bind, Prog.ite_bind, Prog.pure_bind,
      pending_lookup]
    intro worker
    split_ifs with hw
    · simp [pending_pure, AccountOp.success]
    · rw [pending_Get]
      intro stored
      split_ifs with he hne
      · simp [pending_pure, AccountOp.success]
      · simp [pending_pure, AccountOp.success]
      · obtain rfl := not_not.mp hne
        exact ⟨rfl, fun _ => rfl⟩

/-! ### Interleavings -/

section Races

variable {ι : Type} [DecidableEq ι]

/-- Operations on one account, each with what is left of it. -/
abbrev AccountRace (ι : Type) := Config ι Call Bytes Abort Tablet (Bool ⊕ ℕ)

/-- All operations are about to begin. -/
def AccountRace.start (username : Bytes) (kvs : Tablet) (ops : ι → AccountOp) : AccountRace ι :=
  Config.start kvs fun i => (ops i).handler username

/-- A write finds what the operation it belongs to has read. -/
def Call.Undisturbed (kvs : Tablet) : Call → Prop
  | .update (.put row column _) => kvs.cells (row, column) = none
  | .update (.cput row column cur _) => kvs.cells (row, column) = some cur
  | _ => True

/-- The next call of operation `i` is not disturbed. -/
def AccountRace.Undisturbed (s : AccountRace ι) (i : ι) : Prop :=
  match s.progs i with
  | .call c _ => c.Undisturbed s.store
  | _ => True

/-- Operation `i` has reported success. -/
def AccountRace.Succeeded (ops : ι → AccountOp) (s : AccountRace ι) (i : ι) : Prop :=
  s.progs i = .done (ops i).success

/-- Operation `i` is a successful `changePassword`. -/
def AccountRace.Changed (ops : ι → AccountOp) (s : AccountRace ι) (i : ι) : Prop :=
  ∃ old new, ops i = .changePassword old new ∧ s.Succeeded ops i

/-- **The account is updated atomically**: one `signup` at most succeeds, its
password is the stored one until a `changePassword` succeeds, and among
`changePassword`s from one and the same password to others one at most succeeds,
and its password is then the stored one. -/
structure AccountRace.Atomic (username : Bytes) (ops : ι → AccountOp) (s : AccountRace ι) :
    Prop where
  /-- At most one `signup` succeeds. -/
  signup_unique : ∀ i j p q, ops i = .signup p → ops j = .signup q →
    s.Succeeded ops i → s.Succeeded ops j → i = j
  /-- The password of a successful `signup` stays until it is changed. -/
  signup_stored : ∀ i p, ops i = .signup p → s.Succeeded ops i → (∀ j, ¬s.Changed ops j) →
    s.store.cells (passwordCell username) = some p
  /-- At most one `changePassword` from the same password succeeds. -/
  change_unique : ∀ old, (∀ i o n, ops i = .changePassword o n → o = old ∧ n ≠ old) →
    ∀ i j, s.Changed ops i → s.Changed ops j → i = j
  /-- The password of a successful `changePassword` is then the stored one. -/
  change_stored : ∀ old, (∀ i o n, ops i = .changePassword o n → o = old ∧ n ≠ old) →
    ∀ i n, ops i = .changePassword old n → s.Succeeded ops i →
      s.store.cells (passwordCell username) = some n

/-- The invariant of undisturbed interleavings. -/
structure AccountRace.Inv (username : Bytes) (ops : ι → AccountOp) (s : AccountRace ι) : Prop where
  /-- An operation has succeeded, or has not written. -/
  shape : ∀ i, Pending ((ops i).write username) (ops i).success (s.progs i) ∨ s.Succeeded ops i
  /-- Once an operation has succeeded there is a password. -/
  some_of_succeeded : ∀ i, s.Succeeded ops i → s.store.cells (passwordCell username) ≠ none
  /-- What has been promised. -/
  atomic : s.Atomic username ops

variable {username : Bytes} {ops : ι → AccountOp} {kvs : Tablet} {master : Master}

omit [DecidableEq ι] in
theorem AccountRace.inv_start : (AccountRace.start username kvs ops).Inv username ops := by
  have hno : ∀ i, ¬(AccountRace.start username kvs ops).Succeeded ops i :=
    fun i => (pending_handler username (ops i)).not_done
  refine ⟨fun i => Or.inl (pending_handler username (ops i)), fun i hi => absurd hi (hno i), ?_⟩
  refine ⟨?_, ?_, ?_, ?_⟩
  · exact fun i j p q _ _ hi => absurd hi (hno i)
  · exact fun i p _ hi => absurd hi (hno i)
  · rintro old - i j ⟨o, n, -, hi⟩
    exact absurd hi (hno i)
  · exact fun old _ i n _ hi => absurd hi (hno i)

/-- The configuration after a call of operation `i` that leaves `p` of it. -/
def AccountRace.after (s : AccountRace ι) (i : ι) (c : Call) (kvs : Tablet)
    (p : Handler (Bool ⊕ ℕ)) : AccountRace ι :=
  ⟨kvs, Function.update s.progs i p, (i, c) :: s.trace⟩

@[simp] theorem AccountRace.store_after (s : AccountRace ι) (i : ι) (c : Call) (kvs : Tablet)
    (p : Handler (Bool ⊕ ℕ)) : (s.after i c kvs p).store = kvs := rfl

section Step

variable {s : AccountRace ι} (h : s.Inv username ops) {i : ι} {c : Call}

theorem AccountRace.succeeded_after_of_ne {p : Handler (Bool ⊕ ℕ)} {kvs' : Tablet} {j : ι}
    (hj : j ≠ i) :
    (s.after i c kvs' p).Succeeded ops j ↔ s.Succeeded ops j := by
  simp only [AccountRace.Succeeded, AccountRace.after, Function.update_of_ne hj]

theorem AccountRace.succeeded_after_self {p : Handler (Bool ⊕ ℕ)} {kvs' : Tablet} :
    (s.after i c kvs' p).Succeeded ops i ↔ p = .done (ops i).success := by
  simp only [AccountRace.Succeeded, AccountRace.after, Function.update_self]

include h

/-- A call that reads leaves the account and the successes as they are. -/
theorem AccountRace.Inv.read {p q : Handler (Bool ⊕ ℕ)} (hprog : s.progs i = q)
    (hq : q ≠ .done (ops i).success)
    (hp : Pending ((ops i).write username) (ops i).success p) :
    (s.after i c s.store p).Inv username ops := by
  have hsucc : ∀ j, (s.after i c s.store p).Succeeded ops j ↔ s.Succeeded ops j := by
    intro j
    rcases eq_or_ne j i with rfl | hj
    · rw [AccountRace.succeeded_after_self, AccountRace.Succeeded, hprog]
      exact ⟨fun hd => absurd hd hp.not_done, fun hd => absurd hd hq⟩
    · exact AccountRace.succeeded_after_of_ne hj
  have hchg : ∀ j, (s.after i c s.store p).Changed ops j ↔ s.Changed ops j := by
    intro j
    simp only [AccountRace.Changed, hsucc]
  refine ⟨fun j => ?_, fun j hj => h.some_of_succeeded j ((hsucc j).mp hj), ?_⟩
  · rcases eq_or_ne j i with rfl | hj
    · refine Or.inl ?_
      simpa only [AccountRace.after, Function.update_self] using hp
    · rw [hsucc]
      simpa only [AccountRace.after, Function.update_of_ne hj] using h.shape j
  · obtain ⟨h1, h2, h3, h4⟩ := h.atomic
    refine ⟨?_, ?_, ?_, ?_⟩
    · simpa only [hsucc] using h1
    · simpa only [hsucc, hchg, AccountRace.store_after] using h2
    · simpa only [hchg] using h3
    · simpa only [hsucc, AccountRace.store_after] using h4

/-- An undisturbed `signup` that writes is the first to succeed. -/
theorem AccountRace.Inv.signup {password : Bytes} (hop : ops i = .signup password) {kvs' : Tablet}
    (hnone : s.store.cells (passwordCell username) = none)
    (hcells : kvs'.cells (passwordCell username) = some password) :
    (s.after i c kvs' (.done (ops i).success)).Inv username ops := by
  have hno : ∀ j, ¬s.Succeeded ops j := fun j hj => h.some_of_succeeded j hj hnone
  have honly : ∀ j, (s.after i c kvs' (.done (ops i).success)).Succeeded ops j → j = i := by
    intro j hj
    by_contra hne
    exact hno j ((AccountRace.succeeded_after_of_ne hne).mp hj)
  refine ⟨fun j => ?_, fun j _ => ?_, ?_⟩
  · rcases eq_or_ne j i with rfl | hj
    · exact Or.inr (AccountRace.succeeded_after_self.mpr rfl)
    · refine Or.inl ?_
      simpa only [AccountRace.after, Function.update_of_ne hj] using
        (h.shape j).resolve_right (hno j)
  · simp [AccountRace.after, hcells]
  · refine ⟨?_, ?_, ?_, ?_⟩
    · intro j k p q _ _ hj hk
      rw [honly j hj, honly k hk]
    · intro j p hj hsj _
      rw [honly j hsj, hop] at hj
      rw [← AccountOp.signup.inj hj]
      exact hcells
    · rintro old - j k ⟨o, n, hj, hsj⟩ -
      rw [honly j hsj, hop] at hj
      exact absurd hj (by simp)
    · intro old _ j n hj hsj
      rw [honly j hsj, hop] at hj
      exact absurd hj (by simp)

/-- An undisturbed `changePassword` that writes replaces the stored password. -/
theorem AccountRace.Inv.changePassword {old new : Bytes} (hop : ops i = .changePassword old new)
    {kvs' : Tablet} (hold : s.store.cells (passwordCell username) = some old)
    (hcells : kvs'.cells (passwordCell username) = some new) :
    (s.after i c kvs' (.done (ops i).success)).Inv username ops := by
  have hself : (s.after i c kvs' (.done (ops i).success)).Succeeded ops i :=
    AccountRace.succeeded_after_self.mpr rfl
  -- another change from the same password would have replaced it
  have hfirst : ∀ o, (∀ j a b, ops j = .changePassword a b → a = o ∧ b ≠ o) →
      ∀ j a b, ops j = .changePassword a b →
        (s.after i c kvs' (.done (ops i).success)).Succeeded ops j → j = i := by
    intro o hall j a b hj hsj
    by_contra hne
    obtain ⟨rfl, hb⟩ := hall j a b hj
    have hstored := h.atomic.change_stored a hall j b hj
      ((AccountRace.succeeded_after_of_ne hne).mp hsj)
    rw [hold, (hall i old new hop).1] at hstored
    exact hb (Option.some.inj hstored).symm
  refine ⟨fun j => ?_, fun j _ => ?_, ?_⟩
  · rcases eq_or_ne j i with rfl | hj
    · exact Or.inr hself
    · rw [AccountRace.succeeded_after_of_ne hj]
      simpa only [AccountRace.after, Function.update_of_ne hj] using h.shape j
  · simp [AccountRace.after, hcells]
  · refine ⟨?_, ?_, ?_, ?_⟩
    · intro j k p q hj hk hsj hsk
      have hji : j ≠ i := by
        rintro rfl
        rw [hop] at hj
        exact absurd hj (by simp)
      have hki : k ≠ i := by
        rintro rfl
        rw [hop] at hk
        exact absurd hk (by simp)
      exact h.atomic.signup_unique j k p q hj hk ((AccountRace.succeeded_after_of_ne hji).mp hsj)
        ((AccountRace.succeeded_after_of_ne hki).mp hsk)
    · intro j p _ _ hno
      exact absurd ⟨old, new, hop, hself⟩ (hno i)
    · rintro o hall j k ⟨a, b, hj, hsj⟩ ⟨a', b', hk, hsk⟩
      rw [hfirst o hall j a b hj hsj, hfirst o hall k a' b' hk hsk]
    · intro o hall j n hj hsj
      obtain rfl := hfirst o hall j o n hj hsj
      rw [hop] at hj
      obtain ⟨-, rfl⟩ := AccountOp.changePassword.inj hj
      exact hcells

/-- **One undisturbed call keeps the invariant.** -/
theorem AccountRace.Inv.step (hund : s.Undisturbed i) :
    AccountRace.Inv username ops (s.step (Call.exec master) i) := by
  refine Config.inv_step h fun c k hprog => ?_
  have hpend : Pending ((ops i).write username) (ops i).success (.call c k) := by
    rcases h.shape i with hp | hs
    · rwa [hprog] at hp
    · rw [AccountRace.Succeeded, hprog] at hs
      exact absurd hs (by simp)
  have hnot : Prog.call c k ≠ .done (ops i).success := hpend.not_done
  rcases c with key | ⟨row, column⟩ | u
  · exact h.read hprog hnot (hpend _)
  · exact h.read hprog hnot (hpend _)
  · obtain ⟨rfl, hk⟩ := hpend
    have hu : (Call.update ((ops i).write username)).Undisturbed s.store := by
      simpa only [AccountRace.Undisturbed, hprog] using hund
    rw [hk]
    obtain ⟨password, hop⟩ | ⟨old, new, hop⟩ :
        (∃ p, ops i = .signup p) ∨ ∃ o n, ops i = .changePassword o n := by
      cases ops i <;> simp
    · rw [hop] at hu
      refine h.signup hop hu ?_
      rw [hop, AccountOp.write, Call.cells_exec_put]
      exact Function.update_self _ _ _
    · rw [hop] at hu
      refine h.changePassword hop hu ?_
      rw [hop, AccountOp.write, Call.cells_exec_cput_of_eq master s.store hu]
      exact Function.update_self _ _ _

end Step

/-- **Undisturbed operations update the account atomically**, however their calls
are interleaved. -/
theorem atomic_of_undisturbed {s : AccountRace ι}
    (h : Runs.Reaches (Config.step (Call.exec master)) AccountRace.Undisturbed
      (AccountRace.start username kvs ops) s) : s.Atomic username ops := by
  have hinv : s.Inv username ops :=
    h.invariant AccountRace.inv_start fun t i ht hi => ht.step hi
  exact hinv.atomic

end Races

/-! ### Two signups -/

/-- Two front ends sign the same user up, with different passwords. -/
def twoSignups : Bool → AccountOp
  | false => .signup (ascii "one")
  | true => .signup (ascii "two")

/-- One after the other, the second is refused. -/
theorem atomic_one_after_the_other :
    AccountRace.Atomic (ascii "ann") twoSignups ([false, false, false, true, true].foldl
      (Config.step (Call.exec Master.first)) (AccountRace.start (ascii "ann") ∅ twoSignups)) := by
  have h0 : Runs.Reaches (Config.step (Call.exec Master.first)) AccountRace.Undisturbed
      (AccountRace.start (ascii "ann") ∅ twoSignups) _ := Runs.Reaches.refl _
  have h3 := ((h0.tail (e := false) trivial).tail (e := false) trivial).tail (e := false) rfl
  exact atomic_of_undisturbed ((h3.tail (e := true) trivial).tail (e := true) trivial)

/-- **Both of two signups succeed** when the second reads before the first has
written. -/
theorem two_signups_succeed :
    ∃ s, Runs.Reaches (Config.step (Call.exec Master.first)) (fun _ _ => True)
        (AccountRace.start (ascii "ann") ∅ twoSignups) s ∧
      ¬AccountRace.Atomic (ascii "ann") twoSignups s := by
  refine ⟨_, Runs.Reaches.foldl [false, false, true, true, false, true] (fun _ _ _ => trivial) _,
    fun h => ?_⟩
  exact absurd (h.signup_unique false true _ _ rfl rfl rfl rfl) (by simp)

end PennCloud
