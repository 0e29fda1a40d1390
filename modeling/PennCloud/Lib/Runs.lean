import Mathlib.Logic.Relation

/-!
# Runs of a deterministic system

A system is a step function `step : S → E → S`: in a state, an event leads to
one next state. A **run** is a sequence of events, and a property of runs is
usually asked under a condition `ok s e` on each event in the state it happens
in: that is `Runs.Reaches`, the reflexive-transitive closure of the permitted
steps. With `ok` the trivial condition these are all the runs.

The rule everything rests on is `Runs.Reaches.invariant`: what holds at the
start and is kept by every permitted step holds in every state reached.

A run of a system is **simulated** by one whose steps are a relation when each of its
steps is (`Runs.Along.simulates`).

Where a property of an event is about what has happened before it, a run is a
list of events and `Runs.Each` says that the property holds of all of them;
`Runs.each_concat` is the induction step from the last event.
-/

namespace Runs

variable {S E : Type*}

/-- One step by an event the condition permits. -/
def Step (step : S → E → S) (ok : S → E → Prop) (s s' : S) : Prop :=
  ∃ e, ok s e ∧ s' = step s e

/-- **The states reached** from a state through steps that all meet a
condition. -/
def Reaches (step : S → E → S) (ok : S → E → Prop) : S → S → Prop :=
  Relation.ReflTransGen (Step step ok)

variable {step : S → E → S} {ok : S → E → Prop} {s s' : S}

theorem Reaches.refl (s : S) : Reaches step ok s s := Relation.ReflTransGen.refl

theorem Reaches.tail (h : Reaches step ok s s') {e : E} (he : ok s' e) :
    Reaches step ok s (step s' e) :=
  Relation.ReflTransGen.tail h ⟨e, he, rfl⟩

theorem Reaches.trans {s'' : S} (h : Reaches step ok s s') (h' : Reaches step ok s' s'') :
    Reaches step ok s s'' :=
  Relation.ReflTransGen.trans h h'

/-- **The invariant rule.** -/
theorem Reaches.invariant {P : S → Prop} (h : Reaches step ok s s') (h0 : P s)
    (hstep : ∀ t e, P t → ok t e → P (step t e)) : P s' := by
  induction h with
  | refl => exact h0
  | tail _ hlast ih =>
    obtain ⟨e, he, rfl⟩ := hlast
    exact hstep _ e ih he

/-- A list of events that all meet a condition wherever they happen is a run. -/
theorem Reaches.foldl (es : List E) (h : ∀ t, ∀ e ∈ es, ok t e) (s : S) :
    Reaches step ok s (es.foldl step s) := by
  induction es generalizing s with
  | nil => exact Reaches.refl s
  | cons e es ih =>
    have hfirst : Reaches step ok s (step s e) := (Reaches.refl s).tail (h s e List.mem_cons_self)
    exact hfirst.trans (ih (fun t e' he' => h t e' (List.mem_cons_of_mem e he')) (step s e))

/-- All events of a sequence meet the condition, each where it happens. -/
def Along (step : S → E → S) (ok : S → E → Prop) : S → List E → Prop
  | _, [] => True
  | s, e :: es => ok s e ∧ Along step ok (step s e) es

instance decidableAlong [∀ s e, Decidable (ok s e)] : ∀ s es, Decidable (Along step ok s es)
  | _, [] => inferInstanceAs (Decidable True)
  | s, e :: es =>
    have := decidableAlong (step s e) es
    inferInstanceAs (Decidable (_ ∧ _))

theorem Reaches.of_along {es : List E} (h : Along step ok s es) :
    Reaches step ok s (es.foldl step s) := by
  induction es generalizing s with
  | nil => exact Reaches.refl s
  | cons e es ih => exact ((Reaches.refl s).tail h.1).trans (ih h.2)

/-! ### Simulation -/

section Simulation

variable {T : Type*}

/-- The states that an abstract system may come to along a sequence of events, when a step of
it is a relation. -/
def Follows (A : T → E → T → Prop) : T → List E → T → Prop
  | t, [], t' => t' = t
  | t, e :: es, t' => ∃ u, A t e u ∧ Follows A u es t'

/-- **The simulation rule.** When each permitted step can be followed from a related state to
a related state, so can every permitted run. -/
theorem Along.simulates {A : T → E → T → Prop} {Rel : S → T → Prop}
    (hstep : ∀ s t e, Rel s t → ok s e → ∃ t', A t e t' ∧ Rel (step s e) t') {es : List E}
    (h : Along step ok s es) {t : T} (h0 : Rel s t) :
    ∃ t', Follows A t es t' ∧ Rel (es.foldl step s) t' := by
  induction es generalizing s t with
  | nil => exact ⟨t, rfl, h0⟩
  | cons e es ih =>
    obtain ⟨u, hu, hrel⟩ := hstep s t e h0 h.1
    obtain ⟨t', ht', hrel'⟩ := ih h.2 hrel
    exact ⟨t', ⟨u, hu, ht'⟩, hrel'⟩

end Simulation

/-! ### Properties of each event -/

/-- Every event of a sequence has a property, given the events before it. -/
def Each (P : List E → E → Prop) (es : List E) : Prop :=
  ∀ before e after, es = before ++ e :: after → P before e

theorem each_nil (P : List E → E → Prop) : Each P [] := by
  intro before e after h
  simp at h

/-- **The last event on its own.** -/
theorem each_concat {P : List E → E → Prop} {es : List E} {e : E} :
    Each P (es ++ [e]) ↔ Each P es ∧ P es e := by
  constructor
  · intro h
    refine ⟨fun before e' after hes => ?_, h es e [] rfl⟩
    exact h before e' (after ++ [e]) (by rw [hes]; simp)
  · rintro ⟨hes, he⟩ before e' after heq
    rcases List.eq_nil_or_concat after with rfl | ⟨after', x, rfl⟩
    · obtain ⟨rfl, h⟩ := List.append_inj' heq rfl
      obtain rfl : e = e' := by simpa using h
      exact he
    · have heq' : es ++ [e] = (before ++ e' :: after') ++ [x] := by
        rw [heq]
        simp
      obtain ⟨h, -⟩ := List.append_inj' heq' rfl
      exact hes before e' after' h

end Runs
