import PennCloud.Frontend.Sessions

/-!
# Logins at the same time

Every front end draws its session numbers on its own – with the same generator
and the same seed – and a login tests whether a number is free some calls before
it takes it, with a blind `Put`. Two logins that draw the same number can both
find it free and both hand it out; the session then belongs to the later one
(`PennCloud.same_session_twice`).

The race is decided at the `Put`: a login **takes an unclaimed number** when no
other login has put its name there before. In every interleaving in which all of
them do, the numbers handed out are different and each leads to the user it was
handed out to (`PennCloud.distinct_of_unclaimed`), whatever values are drawn.
-/

namespace PennCloud

open Wire Calls Text

/-! ### What is left of a login -/

/-- A login that has taken its number `sid` and only has the list of active users
left to update. -/
def Claimed (sid : Bytes) : Handler Bytes → Prop
  | .done c => c = sid
  | .fail _ => True
  | .call (.update u) k => u.cell = (sessionRow, activeUsersColumn) ∧ ∀ r, Claimed sid (k r)
  | .call (.lookup _) k => ∀ r, Claimed sid (k r)
  | .call (.get _ _) k => ∀ r, Claimed sid (k r)

/-- A login of `username` that has not taken a number. -/
def Claiming (username : Bytes) : Handler Bytes → Prop
  | .done c => c = ascii "error"
  | .fail _ => True
  | .call (.update u) k =>
    ∃ n, u = .put sessionRow (decimal n) username ∧ ∀ r, Claimed (decimal n) (k r)
  | .call (.lookup _) k => ∀ r, Claiming username (k r)
  | .call (.get _ _) k => ∀ r, Claiming username (k r)

section Shape

variable {username : Bytes}

theorem claiming_lookup {key : Bytes} {f : Bytes → Handler Bytes} :
    Claiming username (lookup key >>= f) ↔ ∀ r, Claiming username (f r) := Iff.rfl

theorem claiming_Get {row column : Bytes} {f : Bytes → Handler Bytes} :
    Claiming username (Get row column >>= f) ↔ ∀ r, Claiming username (f r) := Iff.rfl

/-- Drawing a number takes none; what follows knows that it is a number. -/
theorem claiming_draw (draws : List ℕ) {f : Bytes → Handler Bytes}
    (hf : ∀ n, Claiming username (f (decimal n))) :
    Claiming username (drawSessionId draws >>= f) := by
  induction draws with
  | nil => exact trivial
  | cons n draws ih =>
    simp only [drawSessionId, Prog.bind_bind, Prog.ite_bind, Prog.pure_bind, claiming_Get]
    intro first
    split_ifs with hfirst
    · exact hf n
    · rw [claiming_Get]
      intro second
      split_ifs with hsecond
      · exact hf n
      · exact ih

theorem claiming_generateSessionCookie (draws : List ℕ) :
    Claiming username (generateSessionCookie username draws) := by
  rw [generateSessionCookie, claiming_lookup]
  intro worker
  split_ifs with hw
  · rfl
  · refine claiming_draw draws fun n => ?_
    rw [claiming_Get]
    intro activeUsers
    split_ifs with ha
    · exact ⟨n, rfl, fun _ => ⟨rfl, fun _ => rfl⟩⟩
    · exact ⟨n, rfl, fun _ => ⟨rfl, fun _ => rfl⟩⟩

end Shape

/-! ### Interleavings -/

section Races

variable {ι : Type} [DecidableEq ι]

/-- Logins, each with what is left of it. -/
abbrev LoginRace (ι : Type) := Config ι Call Bytes Abort Tablet Bytes

/-- All logins are about to begin. -/
def LoginRace.start (kvs : Tablet) (users : ι → Bytes) (draws : ι → List ℕ) : LoginRace ι :=
  Config.start kvs fun i => generateSessionCookie (users i) (draws i)

/-- Login `j` has put the name `v` under the session `c`. -/
def LoginRace.Puts (s : LoginRace ι) (j : ι) (c v : Bytes) : Prop :=
  c ≠ activeUsersColumn ∧ (j, Call.update (.put sessionRow c v)) ∈ s.trace

/-- The next call of login `i` does not put a name where there is another login's
already. -/
def LoginRace.Unclaimed (s : LoginRace ι) (i : ι) : Prop :=
  match s.progs i with
  | .call (.update (.put _ c _)) _ => ∀ j v, ¬s.Puts j c v
  | _ => True

/-- Login `i` has handed out the session `c`. -/
def LoginRace.HandedOut (s : LoginRace ι) (i : ι) (c : Bytes) : Prop :=
  s.progs i = .done c ∧ c ≠ ascii "error"

/-- **No session is shared**: different logins hand out different numbers, and
each of them leads to the user it was handed out to. -/
structure LoginRace.Distinct (master : Master) (users : ι → Bytes) (s : LoginRace ι) : Prop where
  /-- The numbers are different. -/
  injective : ∀ i j c, s.HandedOut i c → s.HandedOut j c → i = j
  /-- They lead to their users. -/
  resolves : ∀ i c, s.HandedOut i c →
    returns master s.store (getUsernameFromSession c) (users i)

/-- The invariant of interleavings in which the numbers taken are unclaimed. -/
structure LoginRace.Inv (users : ι → Bytes) (s : LoginRace ι) : Prop where
  /-- A login has not taken a number, or has, and has put its name there. -/
  shape : ∀ i, Claiming (users i) (s.progs i) ∨
    ∃ n, Claimed (decimal n) (s.progs i) ∧ s.Puts i (decimal n) (users i)
  /-- A name that has been put is the login's own, and still there. -/
  stored : ∀ i c v, s.Puts i c v → v = users i ∧ s.store.cells (sessionRow, c) = some v
  /-- Nobody else has put a name there. -/
  once : ∀ i j c v w, s.Puts i c v → s.Puts j c w → i = j

variable {users : ι → Bytes} {draws : ι → List ℕ} {kvs : Tablet} {master : Master}

omit [DecidableEq ι] in
theorem LoginRace.inv_start : (LoginRace.start kvs users draws).Inv users := by
  have hno : ∀ i c v, ¬(LoginRace.start kvs users draws).Puts i c v :=
    fun i c v h => absurd h.2 List.not_mem_nil
  refine ⟨fun i => Or.inl (claiming_generateSessionCookie (draws i)), ?_, ?_⟩
  · exact fun i c v h => absurd h (hno i c v)
  · exact fun i j c v w h => absurd h (hno i c v)

section Step

variable {s : LoginRace ι} (h : s.Inv users) {i : ι}

/-- The configuration after a call of login `i`. -/
def LoginRace.after (s : LoginRace ι) (i : ι) (c : Call) (kvs : Tablet) (p : Handler Bytes) :
    LoginRace ι :=
  ⟨kvs, Function.update s.progs i p, (i, c) :: s.trace⟩

theorem LoginRace.Puts.after {c : Call} {kvs' : Tablet} {p : Handler Bytes} {j : ι}
    {sid v : Bytes} (hp : s.Puts j sid v) : (s.after i c kvs' p).Puts j sid v :=
  ⟨hp.1, List.mem_cons_of_mem _ hp.2⟩

/-- A call that is not the `Put` of a session puts no name. -/
theorem LoginRace.puts_of_after {c : Call} (hc : ∀ sid v, sid ≠ activeUsersColumn →
    c ≠ .update (.put sessionRow sid v)) {kvs' : Tablet} {p : Handler Bytes} {j : ι}
    {sid v : Bytes} (hp : (s.after i c kvs' p).Puts j sid v) : s.Puts j sid v := by
  refine ⟨hp.1, ?_⟩
  rcases List.mem_cons.mp hp.2 with heq | hmem
  · exact absurd (Prod.mk.inj heq).2.symm (hc sid v hp.1)
  · exact hmem

include h

/-- A call that touches no session, after which login `i` is still as it was. -/
theorem LoginRace.Inv.keep {c : Call} {kvs' : Tablet} {p : Handler Bytes}
    (hc : ∀ sid v, sid ≠ activeUsersColumn → c ≠ .update (.put sessionRow sid v))
    (hcells : ∀ sid, sid ≠ activeUsersColumn →
      kvs'.cells (sessionRow, sid) = s.store.cells (sessionRow, sid))
    (hp : Claiming (users i) p ∨ ∃ n, Claimed (decimal n) p ∧ s.Puts i (decimal n) (users i)) :
    (s.after i c kvs' p).Inv users := by
  refine ⟨fun j => ?_, fun j sid v hput => ?_, fun j k sid v w hj hk => ?_⟩
  · rcases eq_or_ne j i with rfl | hj
    · simp only [LoginRace.after, Function.update_self]
      exact hp.imp_right fun ⟨n, hn, hput⟩ => ⟨n, hn, hput.after⟩
    · simp only [LoginRace.after, Function.update_of_ne hj]
      exact (h.shape j).imp_right fun ⟨n, hn, hput⟩ => ⟨n, hn, hput.after⟩
  · obtain ⟨hv, hcell⟩ := h.stored j sid v (LoginRace.puts_of_after hc hput)
    exact ⟨hv, (hcells sid hput.1).trans hcell⟩
  · exact h.once j k sid v w (LoginRace.puts_of_after hc hj) (LoginRace.puts_of_after hc hk)

/-- A login that takes a number nobody has claimed. -/
theorem LoginRace.Inv.claim {n : ℕ} {kvs' : Tablet} {p : Handler Bytes}
    (hfree : ∀ j v, ¬s.Puts j (decimal n) v) (hp : Claimed (decimal n) p)
    (hcells : kvs'.cells =
      Function.update s.store.cells (sessionRow, decimal n) (some (users i))) :
    (s.after i (.update (.put sessionRow (decimal n) (users i))) kvs' p).Inv users := by
  have hput : (s.after i (.update (.put sessionRow (decimal n) (users i))) kvs' p).Puts i
      (decimal n) (users i) := ⟨decimal_ne_activeUsers n, List.mem_cons_self⟩
  -- a name in the longer trace is the one just put, or one in the trace before
  have hcases : ∀ j sid v, (s.after i (.update (.put sessionRow (decimal n) (users i))) kvs' p).Puts
      j sid v → (j = i ∧ sid = decimal n ∧ v = users i) ∨ (s.Puts j sid v ∧ sid ≠ decimal n) := by
    rintro j sid v ⟨hsid, hmem⟩
    rcases List.mem_cons.mp hmem with heq | hmem
    · obtain ⟨rfl, hc⟩ := Prod.mk.inj heq
      obtain ⟨-, rfl, rfl⟩ := Update.put.inj (Call.update.inj hc)
      exact Or.inl ⟨rfl, rfl, rfl⟩
    · refine Or.inr ⟨⟨hsid, hmem⟩, ?_⟩
      rintro rfl
      exact hfree j v ⟨hsid, hmem⟩
  refine ⟨fun j => ?_, fun j sid v hj => ?_, fun j k sid v w hj hk => ?_⟩
  · rcases eq_or_ne j i with rfl | hj
    · refine Or.inr ⟨n, ?_, hput⟩
      simpa only [LoginRace.after, Function.update_self] using hp
    · simp only [LoginRace.after, Function.update_of_ne hj]
      exact (h.shape j).imp_right fun ⟨m, hm, hj'⟩ => ⟨m, hm, hj'.after⟩
  · show _ ∧ kvs'.cells _ = _
    rw [hcells]
    rcases hcases j sid v hj with ⟨rfl, rfl, rfl⟩ | ⟨hold, hne⟩
    · exact ⟨rfl, Function.update_self _ _ _⟩
    · rw [Function.update_of_ne fun heq => hne (Prod.mk.inj heq).2]
      exact h.stored j sid v hold
  · rcases hcases j sid v hj with ⟨rfl, rfl, rfl⟩ | ⟨hold, hne⟩ <;>
      rcases hcases k _ w hk with ⟨rfl, hsid, rfl⟩ | ⟨hold', hne'⟩
    · rfl
    · exact absurd rfl hne'
    · exact absurd hsid hne
    · exact h.once j k sid v w hold hold'

/-- **One call keeps the invariant**, provided it takes no claimed number. -/
theorem LoginRace.Inv.step (hun : s.Unclaimed i) :
    LoginRace.Inv users (s.step (Call.exec master) i) := by
  refine Config.inv_step h fun c k hprog => ?_
  have hshape := h.shape i
  rw [hprog] at hshape
  rcases c with key | ⟨row, column⟩ | u
  · refine h.keep (fun _ _ _ => by simp) (fun _ _ => rfl) ?_
    exact hshape.imp (fun hc => hc _) fun ⟨n, hn, hput⟩ => ⟨n, hn _, hput⟩
  · refine h.keep (fun _ _ _ => by simp) (fun _ _ => rfl) ?_
    exact hshape.imp (fun hc => hc _) fun ⟨n, hn, hput⟩ => ⟨n, hn _, hput⟩
  · rcases hshape with ⟨n, rfl, hk⟩ | ⟨n, ⟨hcell, hk⟩, hput⟩
    · have hfree : ∀ j v, ¬s.Puts j (decimal n) v := by
        simpa only [LoginRace.Unclaimed, hprog] using hun
      exact h.claim hfree (hk _) (Call.cells_exec_put _ _ _ _ _)
    · refine h.keep (fun sid v hsid heq => ?_) (fun sid hsid => ?_) (Or.inr ⟨n, hk _, hput⟩)
      · obtain rfl := Call.update.inj heq
        exact hsid (Prod.mk.inj hcell).2
      · refine Call.cells_exec_of_ne master s.store ?_
        rw [hcell]
        exact fun heq => hsid (Prod.mk.inj heq).2

end Step

omit [DecidableEq ι] in
/-- A login that has handed out a session has put its name there. -/
theorem LoginRace.Inv.puts_of_handedOut {s : LoginRace ι} (h : s.Inv users) {i : ι} {c : Bytes}
    (hc : s.HandedOut i c) : s.Puts i c (users i) := by
  have hshape := h.shape i
  rw [hc.1] at hshape
  rcases hshape with herr | ⟨n, hn, hput⟩
  · exact absurd herr hc.2
  · obtain rfl : c = decimal n := hn
    exact hput

/-- **Logins that take unclaimed numbers share no session**, however their calls
are interleaved and whatever values they draw. -/
theorem distinct_of_unclaimed (hup : master.Up) (hnames : ∀ i, isErr (users i) = false)
    {s : LoginRace ι}
    (h : Runs.Reaches (Config.step (Call.exec master)) LoginRace.Unclaimed
      (LoginRace.start kvs users draws) s) : s.Distinct master users := by
  have hinv : s.Inv users := h.invariant LoginRace.inv_start fun t i ht hi => ht.step hi
  refine ⟨fun i j c hi hj => ?_, fun i c hi => ?_⟩
  · exact hinv.once i j c _ _ (hinv.puts_of_handedOut hi) (hinv.puts_of_handedOut hj)
  · have hcell := (hinv.stored i c _ (hinv.puts_of_handedOut hi)).2
    rw [returns, run_getUsernameFromSession s.store hup, Tablet.text_of_some hcell, hnames i]
    rfl

end Races

/-! ### Two logins that draw the same number -/

/-- Two users log in, on two front ends. -/
def twoUsers : Bool → Bytes
  | false => ascii "ann"
  | true => ascii "bob"

/-- The first login on its own. -/
theorem distinct_first_login :
    LoginRace.Distinct Master.first twoUsers ((List.replicate 6 false).foldl
      (Config.step (Call.exec Master.first)) (LoginRace.start ∅ twoUsers fun _ => [7])) := by
  have h0 : Runs.Reaches (Config.step (Call.exec Master.first)) LoginRace.Unclaimed
      (LoginRace.start ∅ twoUsers fun _ => [7]) _ := Runs.Reaches.refl _
  have h2 := (h0.tail (e := false) trivial).tail (e := false) trivial
  have h4 := (h2.tail (e := false) trivial).tail (e := false) trivial
  have hput : LoginRace.Unclaimed ((List.replicate 4 false).foldl
      (Config.step (Call.exec Master.first)) (LoginRace.start ∅ twoUsers fun _ => [7])) false := by
    rintro j v ⟨-, hmem⟩
    have htrace : ((List.replicate 4 false).foldl (Config.step (Call.exec Master.first))
        (LoginRace.start ∅ twoUsers fun _ => [7])).trace =
          [(false, .get sessionRow activeUsersColumn), (false, .get sessionRow (decimal 7)),
            (false, .get sessionRow (decimal 7)), (false, .lookup sessionRow)] := rfl
    rw [htrace] at hmem
    simp at hmem
  have h6 := (h4.tail (e := false) hput).tail (e := false) fun j v hp => absurd rfl hp.1
  exact distinct_of_unclaimed Master.up_first (by decide) h6

/-- **Two logins hand out the same session** when both test the number before
either takes it. -/
theorem same_session_twice :
    ∃ s, Runs.Reaches (Config.step (Call.exec Master.first)) (fun _ _ => True)
        (LoginRace.start ∅ twoUsers fun _ => [7]) s ∧
      ¬LoginRace.Distinct Master.first twoUsers s := by
  refine ⟨_, Runs.Reaches.foldl (List.replicate 4 false ++ List.replicate 4 true ++
    [false, false, true, true]) (fun _ _ _ => trivial) _, fun h => ?_⟩
  have hne : ascii "7" ≠ ascii "error" := by decide
  exact absurd (h.injective false true (ascii "7") ⟨rfl, hne⟩ ⟨rfl, hne⟩) (by simp)

end PennCloud
