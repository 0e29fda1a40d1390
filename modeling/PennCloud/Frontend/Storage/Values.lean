import PennCloud.Frontend.Storage.Requests

/-!
# What a row may have in its columns

Much that holds of a row says what may be in a column: no content is empty, a listing
has the paths of children only. A program keeps such a thing (`PennCloud.Keeps`) when
every value it writes is of this kind, as far as the texts it has read are – which are
what is in a column, or say that nothing is there.
-/

namespace PennCloud

open Wire Calls Text

variable {master : Master} {kvs : Tablet} {b : Bytes} {V : Bytes → Bytes → Prop}

/-- What is in the columns of the row is what `V` allows. -/
def Holds (V : Bytes → Bytes → Prop) (R : Row) : Prop := ∀ c v, R c = some v → V c v

/-- What is written into a column of the row is allowed in it. -/
def Call.PutsIn (b : Bytes) (V : Bytes → Bytes → Prop) : Call → Prop
  | .update (.put row column value) => row = b → V column value
  | .update (.cput row column _ value) => row = b → V column value
  | _ => True

/-- The text that is read of a column is allowed in it, or says that nothing is there. -/
def Call.ReadsIn (b : Bytes) (V : Bytes → Bytes → Prop) : Call → Bytes → Prop
  | .get row column, text => row = b → V column text ∨ NotFound text
  | _, _ => True

/-- **A program that writes what is allowed**, when it reads what is allowed. -/
def Keeps (b : Bytes) (V : Bytes → Bytes → Prop) {α : Type} (p : Handler α) : Prop :=
  p.Relies (Call.ReadsIn b V) (Call.PutsIn b V)

theorem Holds.text (h : Holds V (kvs.row b)) (c : Bytes) :
    V c (kvs.text b c) ∨ NotFound (kvs.text b c) := by
  rcases hrow : kvs.row b c with _ | v
  · exact Or.inr (Tablet.notFound_of_row hrow)
  · rw [Tablet.text_of_row hrow]
    exact Or.inl (h c v hrow)

theorem Call.PutsIn.exec {c : Call} (hc : c.PutsIn b V) (h : Holds V (kvs.row b)) :
    Holds V ((Call.exec master c kvs).2.row b) := by
  intro col v
  rcases Call.cells_exec master kvs c with heq | ⟨u, rfl, heq⟩
  · rw [Tablet.row, heq]
    exact h col v
  · rw [Tablet.row, heq]
    by_cases hcell : (b, col) = u.cell
    · rw [hcell, Function.update_self]
      rcases u with ⟨row, column, value⟩ | ⟨row, column, cur, value⟩ | ⟨row, column⟩
      · obtain ⟨rfl, rfl⟩ := Prod.mk.inj hcell
        exact fun hv => Option.some.inj hv ▸ hc rfl
      · obtain ⟨rfl, rfl⟩ := Prod.mk.inj hcell
        exact fun hv => Option.some.inj hv ▸ hc rfl
      · exact fun hv => absurd hv.symm (Option.some_ne_none v)
    · rw [Function.update_of_ne hcell]
      exact h col v

theorem Holds.put {c v : Bytes} (h : Holds V (kvs.row b)) (hv : V c v) :
    Holds V ((kvs.put b c v).row b) := by
  intro c' v' hrow
  rw [Tablet.row_put] at hrow
  by_cases hc : c' = c
  · rw [hc, Function.update_self] at hrow
    exact hc ▸ Option.some.inj hrow ▸ hv
  · rw [Function.update_of_ne hc] at hrow
    exact h c' v' hrow

theorem Holds.delete (h : Holds V (kvs.row b)) (c : Bytes) :
    Holds V ((kvs.delete b c).row b) := by
  intro c' v' hrow
  rw [Tablet.row_delete] at hrow
  by_cases hc : c' = c
  · rw [hc, Function.update_self] at hrow
    exact absurd hrow.symm (Option.some_ne_none v')
  · rw [Function.update_of_ne hc] at hrow
    exact h c' v' hrow

namespace Keeps

variable {α β : Type}

/-- **What is kept by a program is kept by its runs.** -/
theorem run {p : Handler α} (hp : Keeps b V p) (h : Holds V (kvs.row b)) :
    Holds V ((p.run (Call.exec master) kvs).2.row b) := by
  refine Prog.Relies.run (P := fun s : Tablet => Holds V (s.row b)) (Call.exec master) hp ?_
    (fun c s (hc : c.PutsIn b V) hs => hc.exec hs) h
  rintro (key | ⟨row, column⟩ | u) s hs
  · exact trivial
  · rintro rfl
    exact hs.text column
  · exact trivial

theorem of_run {p : Handler α} (hp : Keeps b V p) (h : Holds V (kvs.row b)) {s : Tablet}
    {r : Except Abort α} (hrun : p.run (Call.exec master) kvs = (r, s)) : Holds V (s.row b) := by
  have hs := @run master kvs b V α p hp h
  rwa [hrun] at hs

theorem of_reads {p : Handler α} (h : p.Uses Call.Reads) : Keeps b V p :=
  (h.mono fun c hc => by
    rcases c with key | ⟨row, column⟩ | u
    · exact trivial
    · exact trivial
    · exact hc.elim).relies

theorem bind {p : Handler α} {f : α → Handler β} (hp : Keeps b V p) (hf : ∀ a, Keeps b V (f a)) :
    Keeps b V (p >>= f) := Prog.Relies.bind hp hf

theorem ite {p : Prop} [Decidable p] {x y : Handler α} (hx : p → Keeps b V x)
    (hy : ¬p → Keeps b V y) : Keeps b V (if p then x else y) := Prog.Relies.ite hx hy

theorem each {γ : Type} {f : γ → Handler Unit} {xs : List γ} (hf : ∀ x ∈ xs, Keeps b V (f x)) :
    Keeps b V (Prog.each f xs) := Prog.Relies.each hf

theorem get {c : Bytes} {f : Bytes → Handler α} (hf : ∀ t, V c t ∨ NotFound t → Keeps b V (f t)) :
    Keeps b V (Get b c >>= f) := .ask_bind trivial fun t ht => hf t (ht rfl)

theorem put {c v : Bytes} {f : Bytes → Handler α} (hv : V c v) (hf : ∀ t, Keeps b V (f t)) :
    Keeps b V (Put b c v >>= f) := .ask_bind (fun _ => hv) fun t _ => hf t

theorem cput {c v w : Bytes} {f : Bytes → Handler α} (hw : V c w) (hf : ∀ t, Keeps b V (f t)) :
    Keeps b V (CPut b c v w >>= f) := .ask_bind (fun _ => hw) fun t _ => hf t

theorem delete {c : Bytes} {f : Bytes → Handler α} (hf : ∀ t, Keeps b V (f t)) :
    Keeps b V (Delete b c >>= f) := .ask_bind trivial fun t _ => hf t

theorem onWorker {h : Handler Answer} (hh : Keeps b V h) : Keeps b V (onWorker b h) :=
  .ask_bind trivial fun _ _ => .ite (fun _ => trivial) fun _ => hh

end Keeps

section Runs

variable {α β : Type}

/-- What both parts of a run keep. -/
theorem Holds.run_bind {p : Handler α} {f : α → Handler β}
    (hp : Holds V ((p.run (Call.exec master) kvs).2.row b))
    (hf : ∀ a s, p.run (Call.exec master) kvs = (.ok a, s) →
      Holds V (((f a).run (Call.exec master) s).2.row b)) :
    Holds V (((p >>= f).run (Call.exec master) kvs).2.row b) := by
  rcases Prog.run_bind (Call.exec master) p f kvs with ⟨a, hok, hrun⟩ | ⟨e, -, hrun⟩
  · rw [hrun]
    exact hf a _ hok
  · rw [hrun]
    exact hp

/-- Without a worker nothing happens. -/
theorem Holds.run_onWorker {h : Handler Answer} (hkvs : Holds V (kvs.row b))
    (hh : Holds V ((h.run (Call.exec master) kvs).2.row b)) :
    Holds V (((onWorker b h).run (Call.exec master) kvs).2.row b) := by
  rw [onWorker, run_lookup_bind]
  split_ifs
  · exact hkvs
  · exact hh

end Runs

end PennCloud
