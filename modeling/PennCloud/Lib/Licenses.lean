import PennCloud.Lib.Calls

/-!
# What a program may do by what it has seen

Programs that share a store often check something first and act on it afterwards: a row is
touched when another one has named its owner, a cell is written when a third has shown the
password. Which calls such a program may make is not fixed beforehand. It has a **license**,
the calls it may make as it stands, and every reply it gets may add to it.

* `Calls.Prog.Licensed` – all calls of a program are of its license as the replies extend it,
  with the rules for the shapes a program has.
* `Calls.Config.exists_grant` – in every schedule, a call is of the license its program began
  with, or was granted by a reply that the program has had before.
* `Calls.Config.exists_change` – in every schedule, what holds of the store now and did not
  hold at the beginning was brought about by a call of one of the programs.

The replies of `Calls.Config.exists_grant` are those of the store as it was at some moment of
the run, and need not be what the store would reply now: between the reply and the call others
may have been at work.
-/

namespace Calls

variable {C A E S : Type} {α β : Type}

namespace Prog

/-! ### Licensed programs -/

section Licensed

variable (grant : C → A → C → Prop)

/-- Every call of the program is of the license, to which the reply `r` to a call `c` adds the
calls `grant c r`. -/
def Licensed : (C → Prop) → Prog C A E α → Prop
  | _, .done _ => True
  | _, .fail _ => True
  | license, .call c k => license c ∧ ∀ r, Licensed (fun d => license d ∨ grant c r d) (k r)

variable {grant} {license license' : C → Prop}

/-- A greater license does no harm. -/
theorem Licensed.mono {p : Prog C A E α} (hp : p.Licensed grant license)
    (h : ∀ c, license c → license' c) : p.Licensed grant license' := by
  induction p generalizing license license' with
  | done a => exact trivial
  | fail e => exact trivial
  | call c k ih => exact ⟨h c hp.1, fun r => ih r (hp.2 r) fun d => Or.imp_left (h d)⟩

/-- A program all of whose calls are of the license needs no replies for it. -/
theorem Uses.licensed {p : Prog C A E α} (hp : p.Uses license) : p.Licensed grant license := by
  induction p generalizing license with
  | done a => exact trivial
  | fail e => exact trivial
  | call c k ih => exact ⟨hp.1, fun r => ih r ((hp.2 r).mono fun d => Or.inl)⟩

/-- One program after another, when the second needs none of the replies to the first. -/
theorem Licensed.bind {p : Prog C A E α} {f : α → Prog C A E β} (hp : p.Licensed grant license)
    (hf : ∀ a, (f a).Licensed grant license) : (p >>= f).Licensed grant license := by
  induction p generalizing license with
  | done a => exact hf a
  | fail e => exact trivial
  | call c k ih => exact ⟨hp.1, fun r => ih r (hp.2 r) fun a => (hf a).mono fun d => Or.inl⟩

/-- A call, after which the license is greater. -/
theorem Licensed.ask_bind {c : C} {f : A → Prog C A E β} (hc : license c)
    (hf : ∀ r, (f r).Licensed grant fun d => license d ∨ grant c r d) :
    (Prog.ask c >>= f).Licensed grant license := ⟨hc, hf⟩

theorem Licensed.ite {p : Prop} [Decidable p] {x y : Prog C A E α}
    (hx : p → x.Licensed grant license) (hy : ¬p → y.Licensed grant license) :
    (if p then x else y).Licensed grant license := by
  split
  · next h => exact hx h
  · next h => exact hy h

end Licensed

/-- The call that a program is about to make. -/
def next : Prog C A E α → Option C
  | .done _ => none
  | .fail _ => none
  | .call c _ => some c

theorem exists_call_of_next {p : Prog C A E α} {c : C} (h : p.next = some c) :
    ∃ k, p = .call c k := by
  cases p with
  | done a => cases h
  | fail e => cases h
  | call d k =>
    obtain rfl := Option.some.inj h
    exact ⟨k, rfl⟩

end Prog

/-! ### In every schedule -/

namespace Config

variable {ι : Type} [DecidableEq ι] {exec : C → S → A × S} {s₀ s : Config ι C A E S α}

/-- The configurations that a schedule of the programs leads to. -/
abbrev Leads (exec : C → S → A × S) : Config ι C A E S α → Config ι C A E S α → Prop :=
  Runs.Reaches (Config.step exec) fun _ _ => True

/-- Before `s`, program `i` has made a call and had a reply for which `P` holds. -/
def Had (exec : C → S → A × S) (s₀ s : Config ι C A E S α) (i : ι) (P : C → A → Prop) : Prop :=
  ∃ t c k, Leads exec s₀ t ∧ Leads exec (t.step exec i) s ∧ t.progs i = .call c k ∧
    P c (exec c t.store).1

/-- What a program has had it goes on having had. -/
theorem Had.leads {s' : Config ι C A E S α} {i : ι} {P : C → A → Prop} (h : Had exec s₀ s i P)
    (hs : Leads exec s s') : Had exec s₀ s' i P := by
  obtain ⟨t, c, k, ht, hts, hcall, hP⟩ := h
  exact ⟨t, c, k, ht, hts.trans hs, hcall, hP⟩

/-- The license of a program after the replies it has had. -/
def licenseAfter (exec : C → S → A × S) (grant : ι → C → A → C → Prop) (license : ι → C → Prop)
    (s₀ s : Config ι C A E S α) (i : ι) (d : C) : Prop :=
  license i d ∨ Had exec s₀ s i fun c r => grant i c r d

variable {grant : ι → C → A → C → Prop} {license : ι → C → Prop}

/-- **Programs stay licensed**, each with the license its replies have given it. -/
theorem licensed_of_leads (h₀ : ∀ i, (s₀.progs i).Licensed (grant i) (license i))
    (h : Leads exec s₀ s) (i : ι) :
    (s.progs i).Licensed (grant i) (licenseAfter exec grant license s₀ s i) := by
  induction h generalizing i with
  | refl => exact (h₀ i).mono fun d => Or.inl
  | @tail t t' ht hlast ih =>
    obtain ⟨j, -, rfl⟩ := hlast
    have hstep : Leads exec t (t.step exec j) := (Runs.Reaches.refl t).tail trivial
    have hgrows : ∀ d, licenseAfter exec grant license s₀ t i d →
        licenseAfter exec grant license s₀ (t.step exec j) i d :=
      fun d => Or.imp_right fun hd => hd.leads hstep
    rcases hj : t.progs j with a | e | ⟨c, k⟩
    · rw [step_of_done hj]
      exact ih i
    · rw [step_of_fail hj]
      exact ih i
    · rcases eq_or_ne i j with rfl | hne
      · -- the program that has made the call has one reply more
        have hlic := ih i
        rw [hj] at hlic
        have hprog : (t.step exec i).progs i = k (exec c t.store).1 := by
          rw [step_of_call hj]
          exact Function.update_self i _ _
        rw [hprog]
        refine (hlic.2 _).mono fun d hd => ?_
        rcases hd with hd | hd
        · exact hgrows d hd
        · exact Or.inr ⟨t, c, k, ht, Runs.Reaches.refl _, hj, hd⟩
      · have hprog : (t.step exec j).progs i = t.progs i := by
          rw [step_of_call hj]
          exact Function.update_of_ne hne _ _
        rw [hprog]
        exact (ih i).mono hgrows

/-- **Every call is licensed or granted**: it is of the license its program began with, or a
reply the program has had before has granted it. -/
theorem exists_grant (h₀ : ∀ i, (s₀.progs i).Licensed (grant i) (license i))
    (h : Leads exec s₀ s) {i : ι} {d : C} {k : A → Prog C A E α} (hd : s.progs i = .call d k) :
    license i d ∨ Had exec s₀ s i fun c r => grant i c r d := by
  have hlic := licensed_of_leads h₀ h i
  rw [hd] at hlic
  exact hlic.1

/-- **Every change is somebody's**: what holds of the store and did not hold at the beginning
was brought about by a call. -/
theorem exists_change {P : S → Prop} (h : Leads exec s₀ s) (h₀ : ¬P s₀.store) (hs : P s.store) :
    ∃ t i c k, Leads exec s₀ t ∧ Leads exec (t.step exec i) s ∧ t.progs i = .call c k ∧
      ¬P t.store ∧ P (exec c t.store).2 := by
  induction h with
  | refl => exact absurd hs h₀
  | @tail t t' ht hlast ih =>
    obtain ⟨j, -, rfl⟩ := hlast
    by_cases hP : P t.store
    · obtain ⟨u, i, c, k, hu, hut, hcall, hnot, hyes⟩ := ih hP
      exact ⟨u, i, c, k, hu, hut.tail trivial, hcall, hnot, hyes⟩
    · rcases hj : t.progs j with a | e | ⟨c, k⟩
      · rw [step_of_done hj] at hs
        exact absurd hs hP
      · rw [step_of_fail hj] at hs
        exact absurd hs hP
      · have hstore : (t.step exec j).store = (exec c t.store).2 := by rw [step_of_call hj]
        rw [hstore] at hs
        exact ⟨t, j, c, k, ht, Runs.Reaches.refl _, hj, hP, hs⟩

end Config

end Calls
