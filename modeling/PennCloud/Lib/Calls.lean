import PennCloud.Lib.Runs
import Mathlib.Logic.Function.Basic

/-!
# Programs that call a shared store

A program that works on a store through calls: it makes a call, waits for the
reply, goes on according to it, and in the end returns a value or stops with an
error. `Calls.Prog` is such a program as a tree, one branch for every possible
reply, so that the same text can be read in two ways.

* **On its own** (`Calls.Prog.run`): the calls follow one another and the store
  is what the last one left. `Calls.Prog.run_bind` takes a run apart along
  `bind`, and `Calls.Prog.calls` are the calls it consists of; `Calls.Prog.Uses`
  says something of every call a program may make, whatever the replies, and
  `Calls.Prog.Uses.run` carries a property the calls keep to the end of the run;
  `Calls.Prog.Relies` does so when the replies are what the property makes them.
  `Calls.Prog.Ends` is a run that returns, and `Calls.Prog.Total` a program all of
  whose runs do.
* **With others** (`Calls.Config.step`): any number of programs share the store
  and a step is one call of one of them. The configuration remembers who made
  which call, the latest first, since conditions on a schedule are about that.
  `Calls.Config.inv_step` reduces an invariant of all schedules to one call of
  one program, and `Calls.Since` is the condition that a program which reads and
  then writes is not disturbed in between.
-/

namespace Calls

variable {C A E S : Type} {α β : Type}

/-- A program whose calls are in `C` and are answered in `A`. -/
inductive Prog (C A E : Type) (α : Type) where
  /-- Return a value. -/
  | done (a : α)
  /-- Stop with an error. -/
  | fail (e : E)
  /-- Make a call, and go on with its reply. -/
  | call (c : C) (k : A → Prog C A E α)

namespace Prog

/-- One program after another. -/
def bind : Prog C A E α → (α → Prog C A E β) → Prog C A E β
  | .done a, f => f a
  | .fail e, _ => .fail e
  | .call c k, f => .call c fun r => (k r).bind f

instance : Monad (Prog C A E) where
  pure := .done
  bind := Prog.bind

/-- A single call. -/
def ask (c : C) : Prog C A E A := .call c .done

/-- One program for each element of a list, from the first to the last. -/
def each {γ : Type} (f : γ → Prog C A E Unit) : List γ → Prog C A E Unit
  | [] => .done ()
  | x :: xs => (f x).bind fun _ => each f xs

/-! ### A program on its own -/

variable (exec : C → S → A × S)

/-- Run a program: what it ends with, and the store it leaves. -/
def run : Prog C A E α → S → Except E α × S
  | .done a, s => (.ok a, s)
  | .fail e, s => (.error e, s)
  | .call c k, s => (k (exec c s).1).run (exec c s).2

@[simp] theorem run_pure (a : α) (s : S) :
    (pure a : Prog C A E α).run exec s = (.ok a, s) := rfl

@[simp] theorem pure_bind (a : α) (f : α → Prog C A E β) : (pure a >>= f) = f a := rfl

theorem ite_bind {p : Prop} [Decidable p] (a b : Prog C A E α) (f : α → Prog C A E β) :
    ((if p then a else b) >>= f) = if p then a >>= f else b >>= f :=
  apply_ite (fun q => q >>= f) p a b

/-- Two binds in a row. -/
theorem bind_bind {γ : Type} (p : Prog C A E α) (f : α → Prog C A E β) (g : β → Prog C A E γ) :
    (p >>= f) >>= g = p >>= fun a => f a >>= g := by
  induction p with
  | done a => rfl
  | fail e => rfl
  | call c k ih => exact congrArg (Prog.call c) (funext ih)

/-- The second part of a run runs on what the first one left. -/
theorem run_bind_of_ok {p : Prog C A E α} {f : α → Prog C A E β} {s s' : S} {a : α}
    (h : p.run exec s = (.ok a, s')) : (p >>= f).run exec s = (f a).run exec s' := by
  induction p generalizing s with
  | done b =>
    obtain ⟨h1, rfl⟩ := Prod.mk.inj h
    obtain rfl := Except.ok.inj h1
    rfl
  | fail e => exact absurd (Prod.mk.inj h).1 (by simp)
  | call c k ih => exact ih _ h

/-- A run whose first part stops goes no further. -/
theorem run_bind_of_error {p : Prog C A E α} {f : α → Prog C A E β} {s s' : S} {e : E}
    (h : p.run exec s = (.error e, s')) : (p >>= f).run exec s = (.error e, s') := by
  induction p generalizing s with
  | done b => exact absurd (Prod.mk.inj h).1 (by simp)
  | fail e' =>
    obtain ⟨h1, rfl⟩ := Prod.mk.inj h
    obtain rfl := Except.error.inj h1
    rfl
  | call c k ih => exact ih _ h

/-- **A run taken apart**: either the first part returns and the second runs on,
or the first part is all there is. -/
theorem run_bind (p : Prog C A E α) (f : α → Prog C A E β) (s : S) :
    (∃ a, p.run exec s = (.ok a, (p.run exec s).2) ∧
        (p >>= f).run exec s = (f a).run exec (p.run exec s).2) ∨
      (∃ e, p.run exec s = (.error e, (p.run exec s).2) ∧
        (p >>= f).run exec s = (.error e, (p.run exec s).2)) := by
  rcases h : p.run exec s with ⟨a | e, s'⟩
  · exact Or.inr ⟨a, rfl, run_bind_of_error exec h⟩
  · exact Or.inl ⟨e, rfl, run_bind_of_ok exec h⟩

/-- A run that returned has returned from each of its parts. -/
theorem run_bind_ok {p : Prog C A E α} {f : α → Prog C A E β} {s s' : S} {b : β}
    (h : (p >>= f).run exec s = (.ok b, s')) :
    ∃ a t, p.run exec s = (.ok a, t) ∧ (f a).run exec t = (.ok b, s') := by
  rcases run_bind exec p f s with ⟨a, hp, hf⟩ | ⟨e, -, hf⟩
  · exact ⟨a, _, hp, hf ▸ h⟩
  · rw [hf] at h
    exact absurd (Prod.mk.inj h).1 (by simp)

/-- The calls of a run, from the first to the last. -/
def calls : Prog C A E α → S → List C
  | .done _, _ => []
  | .fail _, _ => []
  | .call c k, s => c :: (k (exec c s).1).calls (exec c s).2

@[simp] theorem calls_pure (a : α) (s : S) : (pure a : Prog C A E α).calls exec s = [] := rfl

/-- The calls of the two parts of a run. -/
theorem calls_bind_of_ok {p : Prog C A E α} {f : α → Prog C A E β} {s s' : S} {a : α}
    (h : p.run exec s = (.ok a, s')) :
    (p >>= f).calls exec s = p.calls exec s ++ (f a).calls exec s' := by
  induction p generalizing s with
  | done b =>
    obtain ⟨h1, rfl⟩ := Prod.mk.inj h
    obtain rfl := Except.ok.inj h1
    rfl
  | fail e => exact absurd (Prod.mk.inj h).1 (by simp)
  | call c k ih => exact congrArg (List.cons c) (ih _ h)

/-- What is made of the value in the end is no call. -/
theorem calls_bind_pure (p : Prog C A E α) (g : α → β) (s : S) :
    (p >>= fun a => pure (g a)).calls exec s = p.calls exec s := by
  induction p generalizing s with
  | done a => rfl
  | fail e => rfl
  | call c k ih => exact congrArg (List.cons c) (ih _ _)

/-- What the first part calls, the whole calls. -/
theorem mem_calls_bind {p : Prog C A E α} (f : α → Prog C A E β) {s : S} {c : C}
    (h : c ∈ p.calls exec s) : c ∈ (p >>= f).calls exec s := by
  induction p generalizing s with
  | done a => exact absurd h List.not_mem_nil
  | fail e => exact absurd h List.not_mem_nil
  | call c' k ih =>
    rcases List.mem_cons.mp h with rfl | h
    · exact List.mem_cons_self
    · exact List.mem_cons_of_mem c' (ih _ h)

/-! ### One program after another for a list -/

section Each

variable {γ : Type} {f : γ → Prog C A E Unit}

@[simp] theorem each_nil : each f [] = Prog.done () := rfl

@[simp] theorem each_cons (x : γ) (xs : List γ) : each f (x :: xs) = f x >>= fun _ => each f xs :=
  rfl

theorem each_map {δ : Type} (g : δ → γ) (xs : List δ) :
    each f (xs.map g) = each (fun x => f (g x)) xs := by
  induction xs with
  | nil => rfl
  | cons x xs ih => rw [List.map_cons, each_cons, each_cons, ih]

/-- **The loop rule.** What each round keeps, for the elements that are still to
come, the loop keeps – also one that is stopped on the way. -/
theorem each_inv {I : List γ → S → Prop}
    (hstep : ∀ x xs s, I (x :: xs) s → I xs ((f x).run exec s).2) {xs : List γ} {s : S}
    (h : I xs s) : ∃ ys, I ys ((each f xs).run exec s).2 := by
  induction xs generalizing s with
  | nil => exact ⟨[], h⟩
  | cons x xs ih =>
    have hx := hstep x xs s h
    rcases hrun : (f x).run exec s with ⟨e | a, t⟩
    · rw [hrun] at hx
      rw [each_cons, run_bind_of_error exec hrun]
      exact ⟨xs, hx⟩
    · rw [hrun] at hx
      rw [each_cons, run_bind_of_ok exec hrun]
      exact ih hx

/-- The loop rule for a loop that comes to its end. -/
theorem each_inv_ok {I : List γ → S → Prop}
    (hstep : ∀ x xs s t, I (x :: xs) s → (f x).run exec s = (.ok (), t) → I xs t) {xs : List γ}
    {s t : S} (hrun : (each f xs).run exec s = (.ok (), t)) (h : I xs s) : I [] t := by
  induction xs generalizing s with
  | nil =>
    obtain ⟨-, rfl⟩ := Prod.mk.inj hrun
    exact h
  | cons x xs ih =>
    rw [each_cons] at hrun
    obtain ⟨a, u, hx, hrest⟩ := run_bind_ok exec hrun
    exact ih hrest (hstep x xs s u h hx)

end Each

/-! ### What a program may call -/

/-- Every call a program may make, whatever the replies, is allowed. -/
def Uses (allowed : C → Prop) : Prog C A E α → Prop
  | .done _ => True
  | .fail _ => True
  | .call c k => allowed c ∧ ∀ r, (k r).Uses allowed

variable {allowed : C → Prop}

theorem Uses.ask {c : C} (h : allowed c) : (Prog.ask c : Prog C A E A).Uses allowed :=
  ⟨h, fun _ => trivial⟩

theorem Uses.bind {p : Prog C A E α} {f : α → Prog C A E β} (hp : p.Uses allowed)
    (hf : ∀ a, (f a).Uses allowed) : (p >>= f).Uses allowed := by
  induction p with
  | done a => exact hf a
  | fail e => exact trivial
  | call c k ih => exact ⟨hp.1, fun r => ih r (hp.2 r)⟩

theorem Uses.ask_bind {c : C} {f : A → Prog C A E β} (hc : allowed c)
    (hf : ∀ a, (f a).Uses allowed) : (Prog.ask c >>= f).Uses allowed :=
  (Uses.ask hc).bind hf

theorem Uses.ite {p : Prop} [Decidable p] {x y : Prog C A E α} (hx : p → x.Uses allowed)
    (hy : ¬p → y.Uses allowed) : (if p then x else y).Uses allowed := by
  split
  · next h => exact hx h
  · next h => exact hy h

theorem Uses.each {γ : Type} {f : γ → Prog C A E Unit} {xs : List γ}
    (hf : ∀ x ∈ xs, (f x).Uses allowed) : (each f xs).Uses allowed := by
  induction xs with
  | nil => exact trivial
  | cons x xs ih =>
    exact (hf x List.mem_cons_self).bind fun _ => ih fun y hy => hf y (List.mem_cons_of_mem x hy)

theorem Uses.mono {allowed' : C → Prop} {p : Prog C A E α} (hp : p.Uses allowed)
    (h : ∀ c, allowed c → allowed' c) : p.Uses allowed' := by
  induction p with
  | done a => exact trivial
  | fail e => exact trivial
  | call c k ih => exact ⟨h c hp.1, fun r => ih r (hp.2 r)⟩

/-- **What the allowed calls keep, the run keeps.** -/
theorem Uses.run {P : S → Prop} {p : Prog C A E α} (hp : p.Uses allowed)
    (hkeep : ∀ c s, allowed c → P s → P (exec c s).2) {s : S} (hs : P s) :
    P (p.run exec s).2 := by
  induction p generalizing s with
  | done a => exact hs
  | fail e => exact hs
  | call c k ih => exact ih _ (hp.2 _) (hkeep c s hp.1 hs)

/-- A program whose calls leave the store alone leaves it alone. -/
theorem Uses.run_eq {p : Prog C A E α} (hp : p.Uses allowed)
    (hkeep : ∀ c s, allowed c → (exec c s).2 = s) (s : S) : (p.run exec s).2 = s :=
  hp.run (P := fun t => t = s) exec (fun c t hc ht => (hkeep c t hc).trans ht) rfl

/-- Every call a program may make is allowed, as long as the replies are what it relies
on. -/
def Relies (rely : C → A → Prop) (allowed : C → Prop) : Prog C A E α → Prop
  | .done _ => True
  | .fail _ => True
  | .call c k => allowed c ∧ ∀ r, rely c r → (k r).Relies rely allowed

variable {rely : C → A → Prop}

theorem Uses.relies {p : Prog C A E α} (hp : p.Uses allowed) : p.Relies rely allowed := by
  induction p with
  | done a => exact trivial
  | fail e => exact trivial
  | call c k ih => exact ⟨hp.1, fun r _ => ih r (hp.2 r)⟩

theorem Relies.bind {p : Prog C A E α} {f : α → Prog C A E β} (hp : p.Relies rely allowed)
    (hf : ∀ a, (f a).Relies rely allowed) : (p >>= f).Relies rely allowed := by
  induction p with
  | done a => exact hf a
  | fail e => exact trivial
  | call c k ih => exact ⟨hp.1, fun r hr => ih r (hp.2 r hr)⟩

theorem Relies.ask_bind {c : C} {f : A → Prog C A E β} (hc : allowed c)
    (hf : ∀ r, rely c r → (f r).Relies rely allowed) : (Prog.ask c >>= f).Relies rely allowed :=
  ⟨hc, hf⟩

theorem Relies.ite {p : Prop} [Decidable p] {x y : Prog C A E α}
    (hx : p → x.Relies rely allowed) (hy : ¬p → y.Relies rely allowed) :
    (if p then x else y).Relies rely allowed := by
  split
  · next h => exact hx h
  · next h => exact hy h

theorem Relies.each {γ : Type} {f : γ → Prog C A E Unit} {xs : List γ}
    (hf : ∀ x ∈ xs, (f x).Relies rely allowed) : (each f xs).Relies rely allowed := by
  induction xs with
  | nil => exact trivial
  | cons x xs ih =>
    exact (hf x List.mem_cons_self).bind fun _ => ih fun y hy => hf y (List.mem_cons_of_mem x hy)

/-- **Relying and keeping**: what makes the replies what the program relies on, and is kept
by the calls that are allowed, is kept by the run. -/
theorem Relies.run {P : S → Prop} {p : Prog C A E α} (hp : p.Relies rely allowed)
    (hrely : ∀ c s, P s → rely c (exec c s).1) (hkeep : ∀ c s, allowed c → P s → P (exec c s).2)
    {s : S} (hs : P s) : P (p.run exec s).2 := by
  induction p generalizing s with
  | done a => exact hs
  | fail e => exact hs
  | call c k ih => exact ih _ (hp.2 _ (hrely c s hs)) (hkeep c s hp.1 hs)

/-! ### What a run calls, and where -/

/-- Every call of the run meets a condition, in the store it is made on. -/
def Meets (P : C → S → Prop) : Prog C A E α → S → Prop
  | .done _, _ => True
  | .fail _, _ => True
  | .call c k, s => P c s ∧ (k (exec c s).1).Meets P (exec c s).2

instance decidableMeets {P : C → S → Prop} [∀ c s, Decidable (P c s)] :
    ∀ (p : Prog C A E α) (s : S), Decidable (p.Meets exec P s)
  | .done _, _ => inferInstanceAs (Decidable True)
  | .fail _, _ => inferInstanceAs (Decidable True)
  | .call c k, s =>
    have : Decidable ((k (exec c s).1).Meets exec P (exec c s).2) := decidableMeets _ _
    inferInstanceAs (Decidable (P c s ∧ (k (exec c s).1).Meets exec P (exec c s).2))

variable {exec} in
/-- The calls of the first part of a run. -/
theorem Meets.of_bind {P : C → S → Prop} {p : Prog C A E α} {f : α → Prog C A E β} {s : S}
    (h : (p >>= f).Meets exec P s) : p.Meets exec P s := by
  induction p generalizing s with
  | done a => exact trivial
  | fail e => exact trivial
  | call c k ih => exact ⟨h.1, ih _ h.2⟩

variable {exec} in
/-- The calls of what comes after it. -/
theorem Meets.of_bind_ok {P : C → S → Prop} {p : Prog C A E α} {f : α → Prog C A E β} {s t : S}
    {a : α} (h : (p >>= f).Meets exec P s) (hp : p.run exec s = (.ok a, t)) :
    (f a).Meets exec P t := by
  induction p generalizing s with
  | done b =>
    obtain ⟨hb, rfl⟩ := Prod.mk.inj hp
    obtain rfl := Except.ok.inj hb
    exact h
  | fail e => exact absurd (Prod.mk.inj hp).1 (by simp)
  | call c k ih => exact ih _ h.2 hp

variable {exec} in
/-- One after the other. -/
theorem Meets.bind_of_ok {P : C → S → Prop} {p : Prog C A E α} {f : α → Prog C A E β} {s t : S}
    {a : α} (h : p.Meets exec P s) (hp : p.run exec s = (.ok a, t)) (hf : (f a).Meets exec P t) :
    (p >>= f).Meets exec P s := by
  induction p generalizing s with
  | done b =>
    obtain ⟨hb, rfl⟩ := Prod.mk.inj hp
    obtain rfl := Except.ok.inj hb
    exact hf
  | fail e => exact trivial
  | call c k ih => exact ⟨h.1, ih _ h.2 hp⟩

variable {exec} in
/-- What the program may call at all can be used. -/
theorem Meets.of_uses {P Q : C → S → Prop} {p : Prog C A E α} {s : S} (h : p.Meets exec P s)
    (hp : p.Uses allowed) (himp : ∀ c s, allowed c → P c s → Q c s) : p.Meets exec Q s := by
  induction p generalizing s with
  | done a => exact trivial
  | fail e => exact trivial
  | call c k ih => exact ⟨himp c s hp.1 h.1, ih _ h.2 (hp.2 _)⟩

/-- **A store that answers the calls of the run the same way** makes no difference. -/
theorem Meets.run_eq {exec' : C → S → A × S} {P : C → S → Prop}
    (heq : ∀ c s, P c s → exec' c s = exec c s) {p : Prog C A E α} {s : S}
    (h : p.Meets exec P s) : p.run exec' s = p.run exec s := by
  induction p generalizing s with
  | done a => rfl
  | fail e => rfl
  | call c k ih =>
    obtain ⟨hc, hk⟩ := h
    rw [Prog.run, Prog.run, heq c s hc]
    exact ih _ hk

/-! ### What a program may return -/

/-- Every value a program may return, whatever the replies, has a property. -/
def Returns (P : α → Prop) : Prog C A E α → Prop
  | .done a => P a
  | .fail _ => True
  | .call _ k => ∀ r, (k r).Returns P

/-- A program after which another one returns what has the property. -/
theorem Returns.then {Q : β → Prop} (p : Prog C A E α) {f : α → Prog C A E β}
    (hf : ∀ a, (f a).Returns Q) : (p >>= f).Returns Q := by
  induction p with
  | done a => exact hf a
  | fail e => exact trivial
  | call c k ih => exact fun r => ih r

theorem Returns.bind {P : α → Prop} {Q : β → Prop} {p : Prog C A E α} {f : α → Prog C A E β}
    (hp : p.Returns P) (hf : ∀ a, P a → (f a).Returns Q) : (p >>= f).Returns Q := by
  induction p with
  | done a => exact hf a hp
  | fail e => exact trivial
  | call c k ih => exact fun r => ih r (hp r)

theorem Returns.mono {P Q : α → Prop} {p : Prog C A E α} (hp : p.Returns P)
    (h : ∀ a, P a → Q a) : p.Returns Q := by
  induction p with
  | done a => exact h a hp
  | fail e => exact trivial
  | call c k ih => exact fun r => ih r (hp r)

theorem Returns.ask_bind {P : α → Prop} {c : C} {f : A → Prog C A E α}
    (hf : ∀ r, (f r).Returns P) : (Prog.ask c >>= f).Returns P := fun r => hf r

theorem Returns.ite {P : α → Prop} {p : Prop} [Decidable p] {x y : Prog C A E α}
    (hx : p → x.Returns P) (hy : ¬p → y.Returns P) : (if p then x else y).Returns P := by
  split
  · next h => exact hx h
  · next h => exact hy h

theorem Returns.run {P : α → Prop} {p : Prog C A E α} (hp : p.Returns P) {s : S} {a : α}
    (h : (p.run exec s).1 = .ok a) : P a := by
  induction p generalizing s with
  | done b => exact Except.ok.inj h ▸ hp
  | fail e => cases h
  | call c k ih => exact ih _ (hp _) h

/-- What a program returns can be relied on in what comes after it. -/
theorem Relies.bind_returns {P : α → Prop} {p : Prog C A E α} {f : α → Prog C A E β}
    (hp : p.Relies rely allowed) (hr : p.Returns P)
    (hf : ∀ a, P a → (f a).Relies rely allowed) : (p >>= f).Relies rely allowed := by
  induction p with
  | done a => exact hf a hr
  | fail e => exact trivial
  | call c k ih => exact ⟨hp.1, fun r hrely => ih r (hp.2 r hrely) (hr r)⟩

/-! ### Programs that come to their end -/

/-- The run returns a value. -/
def Ends (p : Prog C A E α) (s : S) : Prop := ∃ a, (p.run exec s).1 = .ok a

variable {exec}

@[simp] theorem ends_pure (a : α) (s : S) : (pure a : Prog C A E α).Ends exec s := ⟨a, rfl⟩

@[simp] theorem not_ends_fail (e : E) (s : S) : ¬(.fail e : Prog C A E α).Ends exec s := by
  rintro ⟨a, h⟩
  cases h

theorem ends_bind_of_ok {p : Prog C A E α} {f : α → Prog C A E β} {s s' : S} {a : α}
    (h : p.run exec s = (.ok a, s')) : (p >>= f).Ends exec s ↔ (f a).Ends exec s' := by
  rw [Ends, Ends, run_bind_of_ok exec h]

/-- A program comes to its end when each of its parts does. -/
theorem ends_bind {p : Prog C A E α} {f : α → Prog C A E β} {s : S} :
    (p >>= f).Ends exec s ↔ ∃ a t, p.run exec s = (.ok a, t) ∧ (f a).Ends exec t := by
  constructor
  · rintro ⟨b, hb⟩
    obtain ⟨a, t, hp, hf⟩ := run_bind_ok exec (Prod.ext hb rfl)
    exact ⟨a, t, hp, b, congrArg Prod.fst hf⟩
  · rintro ⟨a, t, hp, hf⟩
    exact (ends_bind_of_ok hp).mpr hf

/-- A loop comes to its end when every round does, from the stores that the rounds keep
to. -/
theorem ends_each {γ : Type} {f : γ → Prog C A E Unit} {I : S → Prop}
    (hf : ∀ x s, I s → (f x).Ends exec s ∧ I ((f x).run exec s).2) {s : S} (hs : I s)
    (xs : List γ) : (each f xs).Ends exec s := by
  induction xs generalizing s with
  | nil => exact ends_pure () s
  | cons x xs ih =>
    obtain ⟨⟨a, ha⟩, hI⟩ := hf x s hs
    exact (ends_bind_of_ok (Prod.ext ha rfl)).mpr (ih hI)

/-- A loop in two parts. -/
theorem run_each_append {γ : Type} {f : γ → Prog C A E Unit} {xs ys : List γ} {s u : S} :
    (each f (xs ++ ys)).run exec s = (.ok (), u) ↔
      ∃ t, (each f xs).run exec s = (.ok (), t) ∧ (each f ys).run exec t = (.ok (), u) := by
  induction xs generalizing s with
  | nil =>
    constructor
    · exact fun h => ⟨s, rfl, h⟩
    · rintro ⟨t, ht, h⟩
      obtain ⟨-, rfl⟩ := Prod.mk.inj ht
      exact h
  | cons x xs ih =>
    rw [List.cons_append, each_cons, each_cons]
    constructor
    · intro h
      obtain ⟨a, v, hx, hrest⟩ := run_bind_ok exec h
      obtain ⟨t, ht, hys⟩ := ih.mp hrest
      exact ⟨t, (run_bind_of_ok exec hx).trans ht, hys⟩
    · rintro ⟨t, ht, hys⟩
      obtain ⟨a, v, hx, hrest⟩ := run_bind_ok exec ht
      exact (run_bind_of_ok exec hx).trans (ih.mpr ⟨t, hrest, hys⟩)

/-- A loop whose rounds return whenever those of another one do. -/
theorem run_each_mono {γ : Type} {f g : γ → Prog C A E Unit}
    (h : ∀ x s t, (f x).run exec s = (.ok (), t) → (g x).run exec s = (.ok (), t)) {xs : List γ}
    {s t : S} (hrun : (each f xs).run exec s = (.ok (), t)) :
    (each g xs).run exec s = (.ok (), t) := by
  induction xs generalizing s with
  | nil => exact hrun
  | cons x xs ih =>
    obtain ⟨⟨⟩, u, hx, hrest⟩ := run_bind_ok exec hrun
    exact (run_bind_of_ok exec (h x s u hx)).trans (ih hrest)

/-- Whatever the replies, the program does not stop with an error. -/
def Total : Prog C A E α → Prop
  | .done _ => True
  | .fail _ => False
  | .call _ k => ∀ r, (k r).Total

theorem Total.pure (a : α) : (pure a : Prog C A E α).Total := trivial

theorem Total.bind {p : Prog C A E α} {f : α → Prog C A E β} (hp : p.Total)
    (hf : ∀ a, (f a).Total) : (p >>= f).Total := by
  induction p with
  | done a => exact hf a
  | fail e => exact absurd hp not_false
  | call c k ih => exact fun r => ih r (hp r)

theorem Total.ask_bind {c : C} {f : A → Prog C A E β} (hf : ∀ a, (f a).Total) :
    (Prog.ask c >>= f).Total := fun r => hf r

theorem Total.ite {p : Prop} [Decidable p] {x y : Prog C A E α} (hx : x.Total) (hy : y.Total) :
    (if p then x else y).Total := by
  split
  · exact hx
  · exact hy

theorem Total.each {γ : Type} {f : γ → Prog C A E Unit} (hf : ∀ x, (f x).Total) (xs : List γ) :
    (each f xs).Total := by
  induction xs with
  | nil => exact trivial
  | cons x xs ih => exact (hf x).bind fun _ => ih

/-- A program that never stops with an error comes to its end. -/
theorem Total.ends {p : Prog C A E α} (hp : p.Total) (s : S) : p.Ends exec s := by
  induction p generalizing s with
  | done a => exact ends_pure a s
  | fail e => exact absurd hp not_false
  | call c k ih => exact ih _ (hp _) _

/-- What comes to its end in any case does not matter. -/
theorem ends_bind_total {p : Prog C A E α} {f : α → Prog C A E β} (hf : ∀ a, (f a).Total) {s : S} :
    (p >>= f).Ends exec s ↔ p.Ends exec s := by
  rw [ends_bind]
  constructor
  · rintro ⟨a, t, hp, -⟩
    exact ⟨a, congrArg Prod.fst hp⟩
  · rintro ⟨a, hp⟩
    exact ⟨a, _, Prod.ext hp rfl, (hf a).ends _⟩

/-! ### Errors that do not occur -/

variable (exec) in
/-- The run does not stop with the error `e`. -/
def Avoids (e : E) (p : Prog C A E α) (s : S) : Prop := (p.run exec s).1 ≠ .error e

/-- Whatever the replies, the program does not stop with the error `e`. -/
def Never (e : E) : Prog C A E α → Prop
  | .done _ => True
  | .fail e' => e' ≠ e
  | .call _ k => ∀ r, (k r).Never e

variable {e : E}

theorem Never.bind {p : Prog C A E α} {f : α → Prog C A E β} (hp : p.Never e)
    (hf : ∀ a, (f a).Never e) : (p >>= f).Never e := by
  induction p with
  | done a => exact hf a
  | fail e' => exact hp
  | call c k ih => exact fun r => ih r (hp r)

theorem Never.ask_bind {c : C} {f : A → Prog C A E β} (hf : ∀ a, (f a).Never e) :
    (Prog.ask c >>= f).Never e := fun r => hf r

theorem Never.ite {p : Prop} [Decidable p] {x y : Prog C A E α} (hx : x.Never e)
    (hy : y.Never e) : (if p then x else y).Never e := by
  split
  · exact hx
  · exact hy

theorem Never.avoids {p : Prog C A E α} (hp : p.Never e) (s : S) : p.Avoids exec e s := by
  induction p generalizing s with
  | done a =>
    intro h
    cases h
  | fail e' => exact fun h => hp (Except.error.inj h)
  | call c k ih => exact ih _ (hp _) _

/-- A loop avoids an error when every round does, from the stores that the rounds keep to. -/
theorem avoids_each {γ : Type} {f : γ → Prog C A E Unit} {I : S → Prop} {xs : List γ}
    (hf : ∀ x ∈ xs, ∀ s, I s → (f x).Avoids exec e s ∧ I ((f x).run exec s).2) {s : S} (hs : I s) :
    (each f xs).Avoids exec e s ∧ I ((each f xs).run exec s).2 := by
  induction xs generalizing s with
  | nil => exact ⟨Never.avoids (p := (pure () : Prog C A E Unit)) trivial s, hs⟩
  | cons x xs ih =>
    obtain ⟨havoid, hI⟩ := hf x List.mem_cons_self s hs
    rw [each_cons, Avoids]
    rcases hrun : (f x).run exec s with ⟨e' | a, t⟩
    · rw [run_bind_of_error exec hrun]
      rw [Avoids, hrun] at havoid
      rw [hrun] at hI
      exact ⟨fun heq => havoid (by rw [Except.error.inj heq]), hI⟩
    · rw [run_bind_of_ok exec hrun]
      rw [hrun] at hI
      exact ih (fun y hy => hf y (List.mem_cons_of_mem x hy)) hI

end Prog

/-! ### Programs that share the store -/

section Shared

variable {ι : Type} [DecidableEq ι] (exec : C → S → A × S)

/-- A store and the programs at work on it. -/
structure Config (ι C A E S α : Type) where
  /-- The store. -/
  store : S
  /-- What is left of each program. -/
  progs : ι → Prog C A E α
  /-- The calls made so far, the latest first. -/
  trace : List (ι × C)

namespace Config

/-- The beginning: nothing has been called. -/
def start (s : S) (progs : ι → Prog C A E α) : Config ι C A E S α := ⟨s, progs, []⟩

/-- One call of one program; a program that has ended does nothing. -/
def step (s : Config ι C A E S α) (i : ι) : Config ι C A E S α :=
  match s.progs i with
  | .done _ => s
  | .fail _ => s
  | .call c k =>
    ⟨(exec c s.store).2, Function.update s.progs i (k (exec c s.store).1), (i, c) :: s.trace⟩

variable {exec}

theorem step_of_call {s : Config ι C A E S α} {i : ι} {c : C} {k : A → Prog C A E α}
    (h : s.progs i = .call c k) :
    s.step exec i = ⟨(exec c s.store).2, Function.update s.progs i (k (exec c s.store).1),
      (i, c) :: s.trace⟩ := by
  simp only [step, h]

theorem step_of_done {s : Config ι C A E S α} {i : ι} {a : α} (h : s.progs i = .done a) :
    s.step exec i = s := by
  simp only [step, h]

theorem step_of_fail {s : Config ι C A E S α} {i : ι} {e : E} (h : s.progs i = .fail e) :
    s.step exec i = s := by
  simp only [step, h]

/-- **An invariant of all schedules is an invariant of one call**: it is enough
to look at a program that is about to make a call. -/
theorem inv_step {P : Config ι C A E S α → Prop} {s : Config ι C A E S α} {i : ι} (hs : P s)
    (hcall : ∀ c k, s.progs i = .call c k →
      P ⟨(exec c s.store).2, Function.update s.progs i (k (exec c s.store).1),
        (i, c) :: s.trace⟩) : P (s.step exec i) := by
  rcases h : s.progs i with a | e | ⟨c, k⟩
  · rw [step_of_done h]
    exact hs
  · rw [step_of_fail h]
    exact hs
  · rw [step_of_call h]
    exact hcall c k h

end Config

/-- Program `i` has made a call of `reads`, and nobody one of `writes` since. -/
def Since (reads writes : C → Prop) (i : ι) : List (ι × C) → Prop
  | [] => False
  | (j, c) :: trace => (j = i ∧ reads c) ∨ (¬writes c ∧ Since reads writes i trace)

instance decidableSince {reads writes : C → Prop} [DecidablePred reads] [DecidablePred writes]
    (i : ι) : ∀ trace, Decidable (Since reads writes i trace)
  | [] => inferInstanceAs (Decidable False)
  | (j, c) :: trace =>
    have : Decidable (Since reads writes i trace) := decidableSince i trace
    inferInstanceAs (Decidable ((j = i ∧ reads c) ∨ (¬writes c ∧ Since reads writes i trace)))

omit [DecidableEq ι] in
/-- A call of another program. -/
theorem since_cons_of_ne {reads writes : C → Prop} {i j : ι} (hij : i ≠ j) {c : C}
    {trace : List (ι × C)} :
    Since reads writes i ((j, c) :: trace) ↔ ¬writes c ∧ Since reads writes i trace := by
  rw [Since]
  exact or_iff_right fun h => hij h.1.symm

end Shared

end Calls
