import Mathlib.Data.List.Basic
import Mathlib.Data.List.Pairwise

/-!
# Linearizable histories

The clients of a shared object invoke operations and get responses, many of them
at a time. What they see is a **history**: the sequence of the invocations and the
responses. The object is **linearizable** when the operations can be put in one
order such that every answer is the one a sequential object gives in that order,
and no operation comes before one that had its answer when it was invoked
(`Linearizability.Linearizes`).

An order is found by naming one moment for every operation, between its invocation
and its response, at which it takes effect. The three lemmas
`Linearizability.Linearizes.invoke`, `Linearizability.Linearizes.point` and
`Linearizability.Linearizes.respond` say what happens to the order at each of the
three: nothing at an invocation and at a response, and at the moment itself the
operation goes to the end.
-/

namespace Linearizability

variable {ι I O S : Type*}

/-- What the clients see. -/
inductive Event (ι I O : Type*) where
  /-- An operation is invoked, with its input. -/
  | invoke (id : ι) (input : I)
  /-- It is answered. -/
  | respond (id : ι) (output : O)

/-- An operation with its input and the answer. -/
structure Op (ι I O : Type*) where
  /-- Its name. -/
  id : ι
  /-- What it was invoked with. -/
  input : I
  /-- The answer. -/
  output : O

/-- Operations one after the other on a sequential object. -/
def final (spec : S → I → S × O) (s : S) (ops : List (Op ι I O)) : S :=
  ops.foldl (fun s op => (spec s op.input).1) s

/-- Every answer is the one of the sequential object. -/
def Legal (spec : S → I → S × O) : S → List (Op ι I O) → Prop
  | _, [] => True
  | s, op :: ops => (spec s op.input).2 = op.output ∧ Legal spec (spec s op.input).1 ops

/-- The operation `a` had its answer when `b` was invoked. -/
def Precedes (h : List (Event ι I O)) (a b : ι) : Prop :=
  ∃ before between after output input,
    h = before ++ .respond a output :: (between ++ .invoke b input :: after)

/-- **The operations `ops`, in this order, explain the history.** -/
structure Linearizes (spec : S → I → S × O) (s : S) (h : List (Event ι I O))
    (ops : List (Op ι I O)) : Prop where
  /-- Every operation is there once. -/
  distinct : (ops.map Op.id).Nodup
  /-- The answers are those of the sequential object. -/
  legal : Legal spec s ops
  /-- The operations were invoked. -/
  invoked : ∀ op ∈ ops, Event.invoke op.id op.input ∈ h
  /-- Every response is the answer of one of them. -/
  answered : ∀ id output, Event.respond id output ∈ h → ∃ op ∈ ops, op.id = id ∧ op.output = output
  /-- The order is the one of real time wherever that decides. -/
  order : ops.Pairwise fun a b => ¬Precedes h b.id a.id

/-- **A linearizable history.** -/
def Linearizable (spec : S → I → S × O) (s : S) (h : List (Event ι I O)) : Prop :=
  ∃ ops, Linearizes spec s h ops

/-! ### Sequential objects -/

variable {spec : S → I → S × O} {s : S} {ops : List (Op ι I O)} {h : List (Event ι I O)}

@[simp] theorem final_concat (op : Op ι I O) :
    final spec s (ops ++ [op]) = (spec (final spec s ops) op.input).1 := by
  simp [final]

theorem legal_concat (op : Op ι I O) : Legal spec s (ops ++ [op]) ↔
    Legal spec s ops ∧ (spec (final spec s ops) op.input).2 = op.output := by
  induction ops generalizing s with
  | nil => simp [Legal, final]
  | cons a ops ih => simp [Legal, ih, final, and_assoc]

/-! ### Real time -/

theorem Precedes.answered {a b : ι} (hab : Precedes h a b) :
    ∃ output, Event.respond a output ∈ h := by
  obtain ⟨before, between, after, output, input, rfl⟩ := hab
  exact ⟨output, by simp⟩

/-- A response decides nothing about the operations invoked before it. -/
theorem precedes_concat_respond {a b id : ι} {output : O} :
    Precedes (h ++ [.respond id output]) a b ↔ Precedes h a b := by
  constructor
  · rintro ⟨before, between, after, o, i, heq⟩
    rcases List.eq_nil_or_concat after with rfl | ⟨after', e, rfl⟩
    · have hsplit : h ++ [.respond id output] =
          (before ++ .respond a o :: between) ++ [.invoke b i] := by simp [heq]
      obtain ⟨-, hlast⟩ := List.append_inj' hsplit rfl
      exact absurd hlast (by simp)
    · have hsplit : h ++ [.respond id output] =
          (before ++ .respond a o :: (between ++ .invoke b i :: after')) ++ [e] := by simp [heq]
      obtain ⟨hh, -⟩ := List.append_inj' hsplit rfl
      exact ⟨before, between, after', o, i, hh⟩
  · rintro ⟨before, between, after, o, i, rfl⟩
    exact ⟨before, between, after ++ [.respond id output], o, i, by simp⟩

/-- An operation that is invoked comes after everything that has been answered. -/
theorem precedes_concat_invoke {a b id : ι} {input : I}
    (hab : Precedes (h ++ [.invoke id input]) a b) : Precedes h a b ∨ b = id := by
  obtain ⟨before, between, after, o, i, heq⟩ := hab
  rcases List.eq_nil_or_concat after with rfl | ⟨after', e, rfl⟩
  · have hsplit : h ++ [.invoke id input] =
        (before ++ .respond a o :: between) ++ [.invoke b i] := by simp [heq]
    obtain ⟨-, hlast⟩ := List.append_inj' hsplit rfl
    obtain ⟨rfl, -⟩ : id = b ∧ input = i := by simpa using hlast
    exact Or.inr rfl
  · have hsplit : h ++ [.invoke id input] =
        (before ++ .respond a o :: (between ++ .invoke b i :: after')) ++ [e] := by simp [heq]
    obtain ⟨hh, -⟩ := List.append_inj' hsplit rfl
    exact Or.inl ⟨before, between, after', o, i, hh⟩

/-! ### The three moments of an operation -/

namespace Linearizes

theorem empty : Linearizes spec s ([] : List (Event ι I O)) [] where
  distinct := List.nodup_nil
  legal := trivial
  invoked := by simp
  answered := by simp
  order := List.Pairwise.nil

/-- **An invocation** leaves the order as it is. -/
theorem invoke (hl : Linearizes spec s h ops) {id : ι} (hnew : ∀ op ∈ ops, op.id ≠ id)
    (input : I) : Linearizes spec s (h ++ [.invoke id input]) ops where
  distinct := hl.distinct
  legal := hl.legal
  invoked := fun op hop => List.mem_append_left _ (hl.invoked op hop)
  answered := fun id' output hmem => hl.answered id' output (by simpa using hmem)
  order := by
    refine hl.order.imp_of_mem ?_
    intro a b ha _ hab hprec
    rcases precedes_concat_invoke hprec with hprec | heq
    · exact hab hprec
    · exact hnew a ha heq

/-- **The moment an operation takes effect** puts it at the end of the order. -/
theorem point (hl : Linearizes spec s h ops) {id : ι} (hnew : ∀ op ∈ ops, op.id ≠ id) {input : I}
    (hinv : Event.invoke id input ∈ h) {output : O}
    (hout : (spec (final spec s ops) input).2 = output) :
    Linearizes spec s h (ops ++ [⟨id, input, output⟩]) where
  distinct := by
    rw [List.map_append, List.nodup_append]
    refine ⟨hl.distinct, by simp, ?_⟩
    rintro a ha b hb rfl
    obtain ⟨op, hop, rfl⟩ := List.mem_map.mp ha
    exact hnew op hop (by simpa using hb)
  legal := (legal_concat _).mpr ⟨hl.legal, hout⟩
  invoked := by
    intro op hop
    rcases List.mem_append.mp hop with hop | hop
    · exact hl.invoked op hop
    · obtain rfl := List.mem_singleton.mp hop
      exact hinv
  answered := by
    intro id' output' hmem
    obtain ⟨op, hop, heq⟩ := hl.answered id' output' hmem
    exact ⟨op, List.mem_append_left _ hop, heq⟩
  order := by
    rw [List.pairwise_append]
    refine ⟨hl.order, List.pairwise_singleton _ _, ?_⟩
    intro a _ b hb hprec
    obtain rfl := List.mem_singleton.mp hb
    -- it has not been answered, since only operations of the order are
    obtain ⟨output', hresp⟩ := hprec.answered
    obtain ⟨op, hop, heq, -⟩ := hl.answered _ _ hresp
    exact hnew op hop heq

/-- **A response** leaves the order as it is. -/
theorem respond (hl : Linearizes spec s h ops) {op : Op ι I O} (hop : op ∈ ops) :
    Linearizes spec s (h ++ [.respond op.id op.output]) ops where
  distinct := hl.distinct
  legal := hl.legal
  invoked := fun op' hop' => List.mem_append_left _ (hl.invoked op' hop')
  answered := by
    intro id output hmem
    rcases List.mem_append.mp hmem with hmem | hmem
    · exact hl.answered id output hmem
    · obtain ⟨rfl, rfl⟩ : id = op.id ∧ output = op.output := by simpa using hmem
      exact ⟨op, hop, rfl, rfl⟩
  order := hl.order.imp fun hab hprec => hab (precedes_concat_respond.mp hprec)

end Linearizes

end Linearizability
