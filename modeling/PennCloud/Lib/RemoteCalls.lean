import PennCloud.Lib.Licenses

/-!
# Calls that are served by a system

A `Calls.Config` makes a call in one step. Where a system serves it, a call takes longer: it is
made, some part of the system **serves** it at some moment, more is done on its behalf, and then
it **returns**; in between the system takes steps of its own and serves others
(`Calls.Remote`). A program waits until its call has returned.

If serving a call does to the system what the call does to a store, and gives the same answer,
and the other steps of the system do nothing to the store that it stands for
(`Calls.Server.Implements`), then programs cannot tell the system from the store:

* `Calls.Remote.exists_schedule` – in every run of the system, the programs are where they
  are in some schedule of the store, except that a call which was served may not have returned;
  and the moments of that schedule are moments of the run, in the same order.

The second half is what carries a statement about the past of a schedule over to the system.
-/

namespace Calls

/-! ### The moments of a schedule -/

namespace Config

variable {ι C A E S α : Type} [DecidableEq ι] {exec : C → S → A × S}
  {s₀ s t u : Config ι C A E S α} {i : ι}

/-- A step makes a call, which is the latest then, or nothing. -/
theorem step_cases (exec : C → S → A × S) (s : Config ι C A E S α) (i : ι) :
    s.step exec i = s ∨ ∃ c, (s.step exec i).trace = (i, c) :: s.trace := by
  rcases h : s.progs i with a | e | ⟨c, k⟩
  · exact Or.inl (step_of_done h)
  · exact Or.inl (step_of_fail h)
  · exact Or.inr ⟨c, by rw [step_of_call h]⟩

/-- The calls that were made before are still there. -/
theorem Leads.suffix (h : Leads exec s t) : s.trace <:+ t.trace := by
  induction h with
  | refl => exact List.suffix_refl _
  | @tail u t hu hlast ih =>
    obtain ⟨i, -, rfl⟩ := hlast
    rcases step_cases exec u i with heq | ⟨c, hc⟩
    · rw [heq]
      exact ih
    · rw [hc]
      exact ih.trans (List.suffix_cons _ _)

/-- The last call of a schedule. -/
theorem Leads.cases_last (h : Leads exec s t) : t = s ∨ ∃ u i c, Leads exec s u ∧
    t = u.step exec i ∧ t.trace = (i, c) :: u.trace := by
  induction h with
  | refl => exact Or.inl rfl
  | @tail u t hu hlast ih =>
    obtain ⟨i, -, rfl⟩ := hlast
    rcases step_cases exec u i with heq | ⟨c, hc⟩
    · rw [heq]
      exact ih
    · exact Or.inr ⟨u, i, c, hu, rfl, hc⟩

/-- **The calls made say where a schedule is.** -/
theorem Leads.eq_of_trace (hs : Leads exec s₀ s) (ht : Leads exec s₀ t)
    (h : s.trace = t.trace) : s = t := by
  have hnot : ∀ {u : Config ι C A E S α} {i c}, Leads exec s₀ u →
      s₀.trace ≠ (i, c) :: u.trace := by
    intro u i c hu heq
    have hle := hu.suffix.length_le
    rw [heq, List.length_cons] at hle
    omega
  generalize hl : s.trace = l at h
  induction l generalizing s t with
  | nil =>
    rcases hs.cases_last with rfl | ⟨u, i, c, -, -, hc⟩
    · rcases ht.cases_last with rfl | ⟨v, j, d, -, -, hd⟩
      · rfl
      · exact absurd (h.trans hd) (by simp)
    · exact absurd (hl.symm.trans hc) (by simp)
  | cons e l ih =>
    rcases hs.cases_last with rfl | ⟨u, i, c, hu, rfl, hc⟩
    · rcases ht.cases_last with rfl | ⟨v, j, d, hv, rfl, hd⟩
      · rfl
      · exact absurd (hl.trans (h.trans hd)) (hnot hv)
    · rcases ht.cases_last with rfl | ⟨v, j, d, hv, rfl, hd⟩
      · exact absurd (h.symm.trans (hl.symm.trans hc)) (hnot hu)
      · obtain ⟨rfl, hul⟩ := List.cons.inj (hl.symm.trans hc)
        obtain ⟨hij, hvl⟩ := List.cons.inj (h.trans hd)
        obtain ⟨rfl, -⟩ := Prod.mk.inj hij
        rw [ih hu hv hul.symm hvl]

/-- What leads to the next moment leads to this one, or is the next. -/
theorem Leads.of_step (ht : Leads exec s₀ t) (hu : Leads exec s₀ u)
    (h : Leads exec u (t.step exec i)) : Leads exec u t ∨ u = t.step exec i := by
  rcases step_cases exec t i with heq | ⟨c, hc⟩
  · rw [heq] at h
    exact Or.inl h
  · rcases h.cases_last with heq | ⟨v, j, d, hv, -, hd⟩
    · exact Or.inr heq.symm
    · have htrace : v.trace = t.trace := (List.cons.inj (hd.symm.trans hc)).2
      exact Or.inl (Leads.eq_of_trace (hu.trans hv) ht htrace ▸ hv)

end Config

/-! ### Systems that serve calls -/

/-- A system that serves calls. -/
structure Server (C A M T P D : Type) where
  /-- A call is served, in one of the ways `P`: the answer, what is left to be done on its behalf,
  and the system then. -/
  serve : P → C → M → A × T × M
  /-- A step of its own. -/
  inner : D → M → M
  /-- Whether all has been done. -/
  returns : T → M → Bool

/-- A system, and the programs that call it. -/
structure Remote (ι C A E α M T : Type) where
  /-- The system. -/
  system : M
  /-- What is left of each program. -/
  progs : ι → Prog C A E α
  /-- The answers of the calls that have been served and have not returned. -/
  pending : ι → Option (A × T)

namespace Remote

variable {ι C A E S α M T P D : Type} [DecidableEq ι]

/-- What can happen. -/
inductive Step (ι P D : Type) where
  /-- The call of program `i` is served. -/
  | serve (i : ι) (p : P)
  /-- The system takes a step of its own. -/
  | inner (d : D)
  /-- The call of program `i` returns. -/
  | respond (i : ι)

/-- The beginning: nothing has been called. -/
def start (m : M) (progs : ι → Prog C A E α) : Remote ι C A E α M T := ⟨m, progs, fun _ => none⟩

/-- One step. A call is served once, and returns when all has been done. -/
def step (server : Server C A M T P D) (s : Remote ι C A E α M T) :
    Step ι P D → Remote ι C A E α M T
  | .serve i p =>
    match s.pending i, s.progs i with
    | none, .call c _ =>
      let (answer, ticket, system) := server.serve p c s.system
      ⟨system, s.progs, Function.update s.pending i (some (answer, ticket))⟩
    | _, _ => s
  | .inner d => { s with system := server.inner d s.system }
  | .respond i =>
    match s.pending i, s.progs i with
    | some (answer, ticket), .call _ k =>
      if server.returns ticket s.system then
        ⟨s.system, Function.update s.progs i (k answer), Function.update s.pending i none⟩
      else s
    | _, _ => s

/-- What is asked of a step: a call is served in a way that is right for it. -/
def StepOk (ok : M → C → P → Prop) (s : Remote ι C A E α M T) : Step ι P D → Prop
  | .serve i p => s.pending i = none → ∀ c k, s.progs i = .call c k → ok s.system c p
  | _ => True

/-- What is left of a program when its call has returned, if it has been served. -/
def ahead (s : Remote ι C A E α M T) (i : ι) : Prog C A E α :=
  match s.pending i, s.progs i with
  | some (answer, _), .call _ k => k answer
  | _, p => p

end Remote

/-- **The system does what the store does** when a call is served in a way that is right for it,
and nothing by steps of its own. -/
structure Server.Implements {C A S M T P D : Type} (server : Server C A M T P D)
    (exec : C → S → A × S) (ok : M → C → P → Prop) (Rel : M → S → Prop) : Prop where
  /-- The answer is that of the store, -/
  answer : ∀ {m s c p}, Rel m s → ok m c p → (server.serve p c m).1 = (exec c s).1
  /-- and so is what becomes of the system. -/
  serve : ∀ {m s c p}, Rel m s → ok m c p → Rel (server.serve p c m).2.2 (exec c s).2
  /-- The other steps cannot be seen. -/
  inner : ∀ {m s} (d), Rel m s → Rel (server.inner d m) s

namespace Remote

variable {ι C A E S α M T P D : Type} [DecidableEq ι] {server : Server C A M T P D}
  {exec : C → S → A × S} {ok : M → C → P → Prop} {Rel : M → S → Prop}
  {s : Remote ι C A E α M T} {t : Config ι C A E S α}

/-- **A moment of a schedule explains the system**: the store is what the system stands for, and
each program is where it will be when its call has returned. -/
structure Explained (Rel : M → S → Prop) (s : Remote ι C A E α M T) (t : Config ι C A E S α) :
    Prop where
  /-- The store. -/
  store : Rel s.system t.store
  /-- The programs. -/
  progs : ∀ i, t.progs i = s.ahead i

omit [DecidableEq ι] in
theorem ahead_of_none {i : ι} (hp : s.pending i = none) : s.ahead i = s.progs i := by
  rw [ahead, hp]

omit [DecidableEq ι] in
/-- A program whose call has not been served is where it is. -/
theorem Explained.progs_eq (h : Explained Rel s t) {i : ι} (hi : s.pending i = none) :
    t.progs i = s.progs i := by
  rw [h.progs i, ahead_of_none hi]

omit [DecidableEq ι] in
theorem ahead_of_pending {i : ι} {answer : A} {ticket : T} {c : C} {k : A → Prog C A E α}
    (hp : s.pending i = some (answer, ticket)) (hc : s.progs i = .call c k) :
    s.ahead i = k answer := by
  simp only [ahead, hp, hc]

/-- **A call is served** at one moment of the schedule. -/
theorem explained_serve (himp : server.Implements exec ok Rel) (h : Explained Rel s t) {i : ι}
    {p : P} (hok : s.StepOk (D := D) ok (.serve i p)) :
    Explained Rel (s.step server (.serve i p)) t ∨
      Explained Rel (s.step server (.serve i p)) (t.step exec i) := by
  have hsame : s.step server (.serve i p) = s → Explained Rel (s.step server (.serve i p)) t :=
    fun heq => heq.symm ▸ h
  rcases hp : s.pending i with _ | ⟨answer, ticket⟩
  · rcases hc : s.progs i with a | e | ⟨c, k⟩
    · exact Or.inl (hsame (by simp only [step, hp, hc]))
    · exact Or.inl (hsame (by simp only [step, hp, hc]))
    · have hright := hok hp c k hc
      have hstep : s.step server (.serve i p) = ⟨(server.serve p c s.system).2.2, s.progs,
          Function.update s.pending i
            (some ((server.serve p c s.system).1, (server.serve p c s.system).2.1))⟩ := by
        simp only [step, hp, hc]
      rw [hstep, Config.step_of_call ((h.progs_eq hp).trans hc)]
      refine Or.inr ⟨himp.serve h.store hright, fun j => ?_⟩
      dsimp only
      rcases eq_or_ne j i with rfl | hne
      · simp only [ahead, Function.update_self, hc, himp.answer h.store hright]
      · rw [Function.update_of_ne hne, h.progs j]
        simp only [ahead, Function.update_of_ne hne]
  · exact Or.inl (hsame (by simp only [step, hp]))

/-- A step of the system's own cannot be seen. -/
theorem explained_inner (himp : server.Implements exec ok Rel) (h : Explained Rel s t) (d : D) :
    Explained Rel (s.step server (.inner d)) t :=
  ⟨himp.inner d h.store, h.progs⟩

/-- Nor can the return of a call. -/
theorem explained_respond (h : Explained Rel s t) (i : ι) :
    Explained Rel (s.step server (.respond i)) t := by
  have hsame : s.step server (.respond i) = s → Explained Rel (s.step server (.respond i)) t :=
    fun heq => heq.symm ▸ h
  rcases hp : s.pending i with _ | ⟨answer, ticket⟩
  · exact hsame (by simp only [step, hp])
  rcases hc : s.progs i with a | e | ⟨c, k⟩
  · exact hsame (by simp only [step, hp, hc])
  · exact hsame (by simp only [step, hp, hc])
  · by_cases hr : server.returns ticket s.system = true
    · have hstep : s.step server (.respond i) = ⟨s.system,
          Function.update s.progs i (k answer), Function.update s.pending i none⟩ := by
        simp only [step, hp, hc, if_pos hr]
      rw [hstep]
      refine ⟨h.store, fun j => ?_⟩
      rw [h.progs j]
      rcases eq_or_ne j i with rfl | hne
      · rw [ahead_of_pending hp hc]
        simp only [ahead, Function.update_self]
      · simp only [ahead, Function.update_of_ne hne]
    · exact hsame (by simp only [step, hp, hc, if_neg hr])

theorem explained_step (himp : server.Implements exec ok Rel) (h : Explained Rel s t)
    {e : Step ι P D} (he : s.StepOk ok e) :
    Explained Rel (s.step server e) t ∨
      ∃ i, Explained Rel (s.step server e) (t.step exec i) := by
  cases e with
  | serve i p => exact (explained_serve himp h he).imp_right fun h' => ⟨i, h'⟩
  | inner d => exact Or.inl (explained_inner himp h d)
  | respond i => exact Or.inl (explained_respond h i)

/-- The states of the system that a run leads to. -/
abbrev Leads (server : Server C A M T P D) (ok : M → C → P → Prop) :
    Remote ι C A E α M T → Remote ι C A E α M T → Prop :=
  Runs.Reaches (step server) (StepOk ok)

/-- **The moments of a schedule are among those of a run**, in the same order. -/
structure Past (server : Server C A M T P D) (exec : C → S → A × S) (ok : M → C → P → Prop)
    (Rel : M → S → Prop) (s₀ s : Remote ι C A E α M T) (t₀ t : Config ι C A E S α)
    (past : Config ι C A E S α → Remote ι C A E α M T) : Prop where
  /-- Each is explained, -/
  explained : ∀ u, Config.Leads exec t₀ u → Config.Leads exec u t →
    Leads server ok s₀ (past u) ∧ Leads server ok (past u) s ∧ Explained Rel (past u) u
  /-- and they follow each other in the run. -/
  mono : ∀ u v, Config.Leads exec t₀ u → Config.Leads exec u v → Config.Leads exec v t →
    Leads server ok (past u) (past v)

section Past

variable {s₀ : Remote ι C A E α M T} {t₀ : Config ι C A E S α}
  {past : Config ι C A E S α → Remote ι C A E α M T}

theorem past_start (h₀ : Explained Rel s₀ t₀) :
    Past server exec ok Rel s₀ s₀ t₀ t₀ fun _ => s₀ := by
  refine ⟨fun u hu hut => ⟨.refl _, .refl _, ?_⟩, fun _ _ _ _ _ => .refl _⟩
  have htrace : t₀.trace = u.trace := hu.suffix.eq_of_length_le hut.suffix.length_le
  rwa [← Config.Leads.eq_of_trace (Runs.Reaches.refl t₀) hu htrace]

/-- The run goes on. -/
theorem Past.later (h : Past server exec ok Rel s₀ s t₀ t past) {s' : Remote ι C A E α M T}
    (hs : Leads server ok s s') : Past server exec ok Rel s₀ s' t₀ t past := by
  refine ⟨fun u hu hut => ?_, h.mono⟩
  obtain ⟨h₀, hlast, hexp⟩ := h.explained u hu hut
  exact ⟨h₀, hlast.trans hs, hexp⟩

/-- The schedule goes on with it. -/
theorem Past.call (h : Past server exec ok Rel s₀ s t₀ t past) (ht : Config.Leads exec t₀ t)
    (h₀ : Leads server ok s₀ s) {i : ι} {c : C} (hc : (t.step exec i).trace = (i, c) :: t.trace)
    (hexp : Explained Rel s (t.step exec i)) :
    ∃ past', Past server exec ok Rel s₀ s t₀ (t.step exec i) past' := by
  classical
  have hnew : ∀ {u}, Config.Leads exec u t → u ≠ t.step exec i := by
    rintro u hut rfl
    have hle := hut.suffix.length_le
    rw [hc, List.length_cons] at hle
    omega
  refine ⟨Function.update past (t.step exec i) s, fun u hu hut => ?_, fun u v hu huv hvt => ?_⟩
  · rcases Config.Leads.of_step ht hu hut with hut' | rfl
    · rw [Function.update_of_ne (hnew hut')]
      exact h.explained u hu hut'
    · rw [Function.update_self]
      exact ⟨h₀, .refl _, hexp⟩
  · rcases Config.Leads.of_step ht (hu.trans huv) hvt with hvt' | rfl
    · rw [Function.update_of_ne (hnew hvt'), Function.update_of_ne (hnew (huv.trans hvt'))]
      exact h.mono u v hu huv hvt'
    · rw [Function.update_self]
      rcases Config.Leads.of_step ht hu huv with hut' | rfl
      · rw [Function.update_of_ne (hnew hut')]
        exact (h.explained u hu hut').2.1
      · rw [Function.update_self]
        exact .refl _

/-- **Programs cannot tell the system from the store.** Every state of a run is explained by a
moment of a schedule, and the moments before that one explain states before it. -/
theorem exists_schedule (himp : server.Implements exec ok Rel) (h₀ : Explained Rel s₀ t₀)
    (h : Leads server ok s₀ s) :
    ∃ t past, Config.Leads exec t₀ t ∧ Explained Rel s t ∧
      Past server exec ok Rel s₀ s t₀ t past := by
  induction h with
  | refl => exact ⟨t₀, _, .refl _, h₀, past_start h₀⟩
  | @tail v w hv hlast ih =>
    obtain ⟨t, past, ht, hexp, hpast⟩ := ih
    obtain ⟨e, he, rfl⟩ := hlast
    have hnext : Leads server ok v (v.step server e) := (Runs.Reaches.refl v).tail he
    have hlater := hpast.later hnext
    rcases explained_step himp hexp he with hsame | ⟨i, hstep⟩
    · exact ⟨t, past, ht, hsame, hlater⟩
    · rcases Config.step_cases exec t i with heq | ⟨c, hc⟩
      · rw [heq] at hstep
        exact ⟨t, past, ht, hstep, hlater⟩
      · obtain ⟨past', hpast'⟩ := hlater.call ht (Runs.Reaches.trans hv hnext) hc hstep
        exact ⟨t.step exec i, past', ht.tail trivial, hstep, hpast'⟩

end Past

end Remote

end Calls
