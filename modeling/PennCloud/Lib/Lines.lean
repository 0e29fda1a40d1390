import PennCloud.Lib.Text

/-!
# A machine that reads lines

A server that is sent text: what arrives is added to a buffer, and as long as
the buffer contains a line – everything before the first occurrence of a fixed
word – the line is taken off and worked on. Working on a line changes a state,
produces outputs and may end the session.

The text arrives in pieces of any size, so a line may arrive in several of them
and several lines in one. `Lines.serve` is the loop over the pieces and
`Lines.drain` the one over the lines of the buffer; `Lines.run` works on lines
that are there already. **The pieces do not matter** (`Lines.serve_eq`): the
outputs are those of `Lines.run` on the lines of the whole text.

* `Lines.takeLines` – the complete lines of a text and what is left, with
  `Lines.takeLines_append` for a text that goes on;
* `Lines.run_append` – a run that is continued;
* `Lines.Exchange` and `Lines.exchanges` – the same run as a record of what was
  asked and answered, and `Lines.exchanges_inv` for what all of it satisfies.
-/

namespace Lines

open Text

section TakeLines

variable {α : Type*} [DecidableEq α] (w : List α)

/-- The first lines of a text, at most as many as the fuel allows. -/
def takeLinesAux (w : List α) : ℕ → List α → List (List α) × List α
  | 0, s => ([], s)
  | fuel + 1, s =>
    match cut w s with
    | none => ([], s)
    | some (line, rest) =>
      (line :: (takeLinesAux w fuel rest).1, (takeLinesAux w fuel rest).2)

/-- The complete lines of a text, and what follows the last of them. -/
def takeLines (s : List α) : List (List α) × List α := takeLinesAux w s.length s

variable {w} {s t line rest : List α}

/-- What follows a line is shorter than the text. -/
theorem length_lt_of_cut (hw : w ≠ []) (h : cut w s = some (line, rest)) :
    rest.length < s.length := by
  have hs := congrArg List.length (eq_append_of_cut h)
  have hpos := List.length_pos_of_ne_nil hw
  simp only [List.length_append] at hs
  omega

theorem takeLinesAux_of_le (hw : w ≠ []) {m n : ℕ} (hm : s.length ≤ m) (hn : s.length ≤ n) :
    takeLinesAux w m s = takeLinesAux w n s := by
  induction m generalizing n s with
  | zero =>
    obtain rfl : s = [] := List.eq_nil_of_length_eq_zero (by omega)
    rcases n with _ | n
    · rfl
    · simp [takeLinesAux, cut, hw]
  | succ m ih =>
    rcases n with _ | n
    · obtain rfl : s = [] := List.eq_nil_of_length_eq_zero (by omega)
      simp [takeLinesAux, cut, hw]
    · simp only [takeLinesAux]
      rcases h : cut w s with _ | ⟨line, rest⟩
      · rfl
      · have hlt := length_lt_of_cut hw h
        have hrest : takeLinesAux w m rest = takeLinesAux w n rest := ih (by omega) (by omega)
        simp only [hrest]

theorem takeLines_of_none (h : cut w s = none) : takeLines w s = ([], s) := by
  rw [takeLines]
  rcases s.length with _ | n
  · rfl
  · simp [takeLinesAux, h]

theorem takeLines_of_some (hw : w ≠ []) (h : cut w s = some (line, rest)) :
    takeLines w s = (line :: (takeLines w rest).1, (takeLines w rest).2) := by
  have hlt := length_lt_of_cut hw h
  obtain ⟨n, hn⟩ : ∃ n, s.length = n + 1 := ⟨s.length - 1, by omega⟩
  rw [takeLines, hn]
  simp only [takeLinesAux, h]
  rw [takeLinesAux_of_le hw (by omega : rest.length ≤ n) le_rfl]
  rfl

/-- **The lines of a text that goes on**: those that are complete stay as they
are, and the rest is continued. -/
theorem takeLines_append (hw : w ≠ []) (s t : List α) :
    takeLines w (s ++ t) = ((takeLines w s).1 ++ (takeLines w ((takeLines w s).2 ++ t)).1,
      (takeLines w ((takeLines w s).2 ++ t)).2) := by
  induction hlen : s.length using Nat.strong_induction_on generalizing s with
  | _ k ih =>
    rcases h : cut w s with _ | ⟨line, rest⟩
    · rw [takeLines_of_none h]
      rfl
    · have hlt := length_lt_of_cut hw h
      rw [takeLines_of_some hw (cut_append h t), takeLines_of_some hw h,
        ih _ (hlen ▸ hlt) rest rfl]
      rfl

/-- What is left contains no line. -/
theorem cut_takeLines (hw : w ≠ []) (s : List α) : cut w (takeLines w s).2 = none := by
  induction hlen : s.length using Nat.strong_induction_on generalizing s with
  | _ k ih =>
    rcases h : cut w s with _ | ⟨line, rest⟩
    · rw [takeLines_of_none h]
      exact h
    · rw [takeLines_of_some hw h]
      exact ih _ (hlen ▸ length_lt_of_cut hw h) rest rfl

end TakeLines

/-! ### The machine -/

section Machine

variable {α σ ω : Type*}

/-- The outputs of a machine on lines that are there already, and the state it is
in afterwards; there is none when a line ended the session. What a line does may
depend on its number. -/
def run (step : ℕ → σ → List α → List ω × Option σ) (n : ℕ) (st : σ) :
    List (List α) → List ω × Option σ
  | [] => ([], some st)
  | line :: lines =>
    match step n st line with
    | (out, none) => (out, none)
    | (out, some st') =>
      (out ++ (run step (n + 1) st' lines).1, (run step (n + 1) st' lines).2)

variable [DecidableEq α] (w : List α) (step : ℕ → σ → List α → List ω × Option σ)

/-- Work on the lines of the buffer. What is left is the number of the next line,
the buffer and the state, unless a line ended the session. -/
def drain : ℕ → ℕ → List α → σ → List ω × Option (ℕ × List α × σ)
  | 0, n, buf, st => ([], some (n, buf, st))
  | fuel + 1, n, buf, st =>
    match cut w buf with
    | none => ([], some (n, buf, st))
    | some (line, rest) =>
      match step n st line with
      | (out, none) => (out, none)
      | (out, some st') =>
        (out ++ (drain fuel (n + 1) rest st').1, (drain fuel (n + 1) rest st').2)

/-- Read pieces of text until there are no more, or one is empty, or a line ended
the session. Of a piece, `clean` of it is added to the buffer. -/
def serve (clean : List α → List α) (n : ℕ) (buf : List α) (st : σ) : List (List α) → List ω
  | [] => []
  | piece :: pieces =>
    if piece = [] then []
    else
      match drain w step (buf ++ clean piece).length n (buf ++ clean piece) st with
      | (out, none) => out
      | (out, some (n', buf', st')) => out ++ serve clean n' buf' st' pieces

variable {w step}

omit [DecidableEq α] in
theorem run_cons_none {n : ℕ} {st : σ} {line : List α} {lines : List (List α)} {out : List ω}
    (h : step n st line = (out, none)) : run step n st (line :: lines) = (out, none) := by
  simp only [run, h]

omit [DecidableEq α] in
theorem run_cons_some {n : ℕ} {st st' : σ} {line : List α} {lines : List (List α)}
    {out : List ω} (h : step n st line = (out, some st')) :
    run step n st (line :: lines) =
      (out ++ (run step (n + 1) st' lines).1, (run step (n + 1) st' lines).2) := by
  simp only [run, h]

omit [DecidableEq α] in
/-- A run that is continued. -/
theorem run_append {n : ℕ} {st st' : σ} {ls ms : List (List α)} {out : List ω}
    (h : run step n st ls = (out, some st')) :
    run step n st (ls ++ ms) =
      (out ++ (run step (n + ls.length) st' ms).1, (run step (n + ls.length) st' ms).2) := by
  induction ls generalizing n st out with
  | nil =>
    obtain ⟨rfl, hst⟩ := Prod.mk.inj h
    obtain rfl := Option.some.inj hst
    simp
  | cons line ls ih =>
    rcases hstep : step n st line with ⟨o, _ | st''⟩
    · rw [run_cons_none hstep] at h
      exact absurd (Prod.mk.inj h).2 (by simp)
    · rw [run_cons_some hstep] at h
      obtain ⟨rfl, hst⟩ := Prod.mk.inj h
      have hrun : run step (n + 1) st'' ls = ((run step (n + 1) st'' ls).1, some st') :=
        Prod.ext rfl hst
      rw [List.cons_append, run_cons_some hstep, ih hrun, List.length_cons]
      simp only [List.append_assoc, Nat.add_assoc, Nat.add_comm 1]

omit [DecidableEq α] in
/-- A session that has ended stays ended. -/
theorem run_append_none {n : ℕ} {st : σ} {ls ms : List (List α)} {out : List ω}
    (h : run step n st ls = (out, none)) : run step n st (ls ++ ms) = (out, none) := by
  induction ls generalizing n st out with
  | nil => exact absurd (Prod.mk.inj h).2 (by simp)
  | cons line ls ih =>
    rcases hstep : step n st line with ⟨o, _ | st''⟩
    · rw [run_cons_none hstep] at h
      rw [List.cons_append, run_cons_none hstep, h]
    · rw [run_cons_some hstep] at h
      obtain ⟨rfl, hst⟩ := Prod.mk.inj h
      have hrun : run step (n + 1) st'' ls = ((run step (n + 1) st'' ls).1, none) :=
        Prod.ext rfl hst
      rw [List.cons_append, run_cons_some hstep, ih hrun]

omit [DecidableEq α] in
/-- What every line keeps, a run keeps. -/
theorem run_inv {I : σ → Prop}
    (hstep : ∀ n st line st', I st → (step n st line).2 = some st' → I st') {n : ℕ} {st st' : σ}
    {lines : List (List α)} (h : I st) (hrun : (run step n st lines).2 = some st') : I st' := by
  induction lines generalizing n st with
  | nil =>
    obtain rfl := Option.some.inj hrun
    exact h
  | cons line lines ih =>
    rcases hline : step n st line with ⟨out, _ | st''⟩
    · rw [run_cons_none hline] at hrun
      exact absurd hrun (by simp)
    · rw [run_cons_some hline] at hrun
      exact ih (hstep n st line st'' h (congrArg Prod.snd hline)) hrun

omit [DecidableEq α] in
/-- **States that no line tells apart** put out the same, also in two machines
that number the lines differently. -/
theorem run_congr {step' : ℕ → σ → List α → List ω × Option σ} {R : σ → σ → Prop} {d : ℕ}
    (hstep : ∀ n st st' line, R st st' →
      (step (n + d) st line).1 = (step' n st' line).1 ∧
        Option.Rel R (step (n + d) st line).2 (step' n st' line).2) {n : ℕ} {st st' : σ}
    (h : R st st') (lines : List (List α)) :
    (run step (n + d) st lines).1 = (run step' n st' lines).1 := by
  induction lines generalizing n st st' with
  | nil => rfl
  | cons line lines ih =>
    obtain ⟨hout, hrel⟩ := hstep n st st' line h
    rcases hl : step (n + d) st line with ⟨out, _ | t⟩ <;>
      rcases hl' : step' n st' line with ⟨out', _ | t'⟩ <;> rw [hl, hl'] at hout hrel
    · rw [run_cons_none hl, run_cons_none hl']
      exact hout
    · cases hrel
    · cases hrel
    · rw [run_cons_some hl, run_cons_some hl']
      have hnext := ih (n := n + 1) (Option.rel_some_some.mp hrel)
      rw [Nat.add_right_comm] at hnext
      exact congrArg₂ (· ++ ·) hout hnext

omit [DecidableEq α] in
/-- A run depends on the machine only for the numbers of its lines. -/
theorem run_congr_step {step' : ℕ → σ → List α → List ω × Option σ} {n : ℕ}
    {lines : List (List α)} (h : ∀ k, n ≤ k → k < n + lines.length → step k = step' k) (st : σ) :
    run step n st lines = run step' n st lines := by
  induction lines generalizing n st with
  | nil => rfl
  | cons line lines ih =>
    have hn : step n = step' n := h n le_rfl (by simp)
    have hrest : ∀ st', run step (n + 1) st' lines = run step' (n + 1) st' lines := by
      intro st'
      refine ih (fun k hk hlt => h k (by omega) ?_) st'
      rw [List.length_cons]
      omega
    simp only [run, hn, hrest]

/-- Working on the buffer is working on its lines. -/
theorem drain_eq (hw : w ≠ []) {fuel n : ℕ} {buf : List α} (hfuel : buf.length ≤ fuel) (st : σ) :
    drain w step fuel n buf st =
      ((run step n st (takeLines w buf).1).1, (run step n st (takeLines w buf).1).2.map
        fun st' => (n + (takeLines w buf).1.length, (takeLines w buf).2, st')) := by
  induction fuel generalizing n buf st with
  | zero =>
    obtain rfl : buf = [] := List.eq_nil_of_length_eq_zero (by omega)
    rfl
  | succ fuel ih =>
    rcases h : cut w buf with _ | ⟨line, rest⟩
    · simp only [drain, h, takeLines_of_none h, run, Option.map_some, List.length_nil, Nat.add_zero]
    · have hlt := length_lt_of_cut hw h
      rcases hstep : step n st line with ⟨out, _ | st'⟩
      · simp only [drain, h, hstep, takeLines_of_some hw h, run_cons_none hstep, Option.map_none]
      · simp only [drain, h, hstep, takeLines_of_some hw h, run_cons_some hstep,
          ih (by omega : rest.length ≤ fuel), List.length_cons, Nat.add_assoc, Nat.add_comm 1]

/-- **The pieces do not matter**: what the machine puts out is what it makes of
the lines of the whole text. -/
theorem serve_eq (hw : w ≠ []) {clean : List α → List α} {n : ℕ} {buf : List α} {st : σ}
    {pieces : List (List α)} (hpieces : ∀ p ∈ pieces, p ≠ []) (hbuf : cut w buf = none) :
    serve w step clean n buf st pieces =
      (run step n st (takeLines w (buf ++ (pieces.map clean).flatten)).1).1 := by
  induction pieces generalizing n buf st with
  | nil =>
    rw [List.map_nil, List.flatten_nil, List.append_nil, takeLines_of_none hbuf]
    rfl
  | cons piece pieces ih =>
    have hne : piece ≠ [] := hpieces piece List.mem_cons_self
    have hrest : ∀ p ∈ pieces, p ≠ [] := fun p hp => hpieces p (List.mem_cons_of_mem piece hp)
    rw [List.map_cons, List.flatten_cons, ← List.append_assoc, takeLines_append hw]
    simp only [serve, if_neg hne, drain_eq hw (le_refl (buf ++ clean piece).length)]
    rcases hrun : run step n st (takeLines w (buf ++ clean piece)).1 with ⟨out, _ | st'⟩
    · rw [run_append_none hrun]
      rfl
    · rw [run_append hrun]
      simp only [Option.map_some]
      rw [ih hrest (cut_takeLines hw (buf ++ clean piece))]

end Machine

/-! ### The record of a session -/

/-- A line and what came of it. -/
structure Exchange (α σ ω : Type*) where
  /-- The state the line found. -/
  before : σ
  /-- The line. -/
  line : List α
  /-- What was put out. -/
  out : List ω
  /-- The state the line left, unless it ended the session. -/
  after : Option σ

section Record

variable {α σ ω : Type*} (step : ℕ → σ → List α → List ω × Option σ)

/-- The exchange about line number `n`. -/
def Exchange.of (n : ℕ) (st : σ) (line : List α) : Exchange α σ ω :=
  ⟨st, line, (step n st line).1, (step n st line).2⟩

/-- The exchanges of a run, the first one first. -/
def exchanges (n : ℕ) (st : σ) : List (List α) → List (Exchange α σ ω)
  | [] => []
  | line :: lines =>
    Exchange.of step n st line ::
      match (step n st line).2 with
      | none => []
      | some st' => exchanges (n + 1) st' lines

variable {step}

/-- The record contains what the run puts out. -/
theorem flatMap_out_exchanges (n : ℕ) (st : σ) (lines : List (List α)) :
    (exchanges step n st lines).flatMap Exchange.out = (run step n st lines).1 := by
  induction lines generalizing n st with
  | nil => rfl
  | cons line lines ih =>
    rcases h : step n st line with ⟨out, _ | st'⟩
    · simp [exchanges, Exchange.of, h, run_cons_none h]
    · simp [exchanges, Exchange.of, h, run_cons_some h, ih]

/-- The exchanges are about the lines. -/
theorem mem_of_mem_exchanges {n : ℕ} {st : σ} {lines : List (List α)} {e : Exchange α σ ω}
    (h : e ∈ exchanges step n st lines) : e.line ∈ lines := by
  induction lines generalizing n st with
  | nil => exact absurd h List.not_mem_nil
  | cons line lines ih =>
    rcases List.mem_cons.mp h with rfl | h
    · exact List.mem_cons_self
    · rcases hst : (step n st line).2 with _ | st'
      · rw [hst] at h
        exact absurd h List.not_mem_nil
      · rw [hst] at h
        exact List.mem_cons_of_mem line (ih h)

/-- **The rule for what holds of a session at every moment**: a property of the
past – the latest exchange first – and of the present state that every line
keeps holds before every exchange of the record. What is known of the exchanges
of the record may be used for the lines. -/
theorem exchanges_inv {I : List (Exchange α σ ω) → σ → Prop} {P : Exchange α σ ω → Prop}
    (hstep : ∀ past st, I past st → ∀ n line st', P (Exchange.of step n st line) →
      (step n st line).2 = some st' → I (Exchange.of step n st line :: past) st')
    (past : List (Exchange α σ ω)) {n : ℕ} {st : σ} (h : I past st) {lines : List (List α)}
    (hP : ∀ e ∈ exchanges step n st lines, P e) {pre post : List (Exchange α σ ω)}
    {e : Exchange α σ ω} (he : exchanges step n st lines = pre ++ e :: post) :
    I (pre.reverse ++ past) e.before ∧ ∃ k, e = Exchange.of step k e.before e.line := by
  induction lines generalizing past n st pre with
  | nil => exact absurd he (by simp [exchanges])
  | cons line lines ih =>
    rcases pre with _ | ⟨e', pre⟩
    · obtain ⟨rfl, -⟩ := List.cons.inj he
      exact ⟨h, n, rfl⟩
    · have hPline : P (Exchange.of step n st line) := hP _ List.mem_cons_self
      obtain ⟨rfl, hrest⟩ := List.cons.inj he
      rcases hst : (step n st line).2 with _ | st'
      · rw [hst] at hrest
        exact absurd hrest (by simp)
      · rw [hst] at hrest
        have hPrest : ∀ e ∈ exchanges step (n + 1) st' lines, P e := by
          intro e' he'
          refine hP e' (List.mem_cons_of_mem _ ?_)
          rw [hst]
          exact he'
        have hnext := ih _ (hstep past st h n line st' hPline hst) hPrest hrest
        rw [List.reverse_cons, List.append_assoc]
        exact hnext

end Record

end Lines
