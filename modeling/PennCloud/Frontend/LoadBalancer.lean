import PennCloud.Lib.RoundRobin
import PennCloud.Lib.Text

/-!
# The load balancer

`frontend/load_balancer.cc`: `select_frontend` probes the frontends one after the
other, from the one `next_frontend` points to, returns the first that answers and puts
the pointer behind it. A frontend is an entry of the list here, given by its index; the
answers to the probes of a call are up to the surroundings
(`PennCloud.LoadBalancer.Probes`).

* `PennCloud.LoadBalancer.indexLoop_cases` – the loop stops at the first frontend that
  answers.
* `PennCloud.LoadBalancer.selectFrontend_fair` – whoever is returned has answered, and as
  long as the same frontends answer they take turns.

The second holds from every pointer from which the sum `start + i` of the source does not
wrap around, as the pointers the program sets do not (`PennCloud.LoadBalancer.Fits`).
From another one a frontend may be probed twice and the last one not at all.
-/

namespace PennCloud

open Wire Text RoundRobin

/-- A frontend server, `http://IP:PORT`. -/
structure Frontend where
  /-- The address. -/
  host : Bytes
  /-- The port. -/
  port : ℕ

/-- Its text in the list. -/
def Frontend.url (f : Frontend) : Bytes :=
  ascii "http://" ++ f.host ++ ascii ":" ++ decimal f.port

/-- A list of frontends. -/
structure Frontends where
  /-- The servers. -/
  entries : List Frontend
  /-- There is one. -/
  nonempty : entries ≠ []
  /-- No more than a vector can have. -/
  length_le : entries.length ≤ 2 ^ 58

/-- `FRONTENDS.size()`. -/
def Frontends.size (frontends : Frontends) : ℕ := frontends.entries.length

theorem Frontends.size_pos (frontends : Frontends) : 0 < frontends.size :=
  List.length_pos_of_ne_nil frontends.nonempty

/-- `FRONTENDS`. -/
def defaultFrontends : Frontends where
  entries := [⟨ascii "127.0.0.1", 8081⟩, ⟨ascii "127.0.0.1", 8082⟩, ⟨ascii "127.0.0.1", 8083⟩]
  nonempty := by decide
  length_le := by decide

namespace LoadBalancer

/-! ### Selecting a frontend -/

/-- The answers in a call: whether the probe number `i` is answered, when it goes to the
frontend with an index. -/
abbrev Probes := ℕ → ℕ → Bool

section Selection

variable (frontends : Frontends)

/-- The index of the probe number `i`. The sum is a `size_t`. -/
def idx (start i : ℕ) : ℕ := (start + i) % 2 ^ 64 % frontends.size

/-- The loop of `select_frontend`, with the number of rounds left: the index of the
frontend that is returned, and `next_frontend` then. -/
def indexLoop (isAlive : Probes) (start next : ℕ) : ℕ → ℕ → Option ℕ × ℕ
  | 0, _ => (none, next)
  | rounds + 1, i =>
    if isAlive i (idx frontends start i) then
      (some (idx frontends start i), (idx frontends start i + 1) % frontends.size)
    else indexLoop isAlive start next rounds (i + 1)

/-- The frontend of a call, and `next_frontend` then. -/
def selectIndex (isAlive : Probes) (next : ℕ) : Option ℕ × ℕ :=
  indexLoop frontends isAlive next next frontends.size 0

/-- The text that is returned, empty when no frontend is alive. -/
def text : Option ℕ → Bytes
  | none => []
  | some index => (frontends.entries[index]?.map Frontend.url).getD []

/-- `select_frontend`. -/
def selectFrontend (isAlive : Probes) (next : ℕ) : Bytes × ℕ :=
  (text frontends (selectIndex frontends isAlive next).1,
    (selectIndex frontends isAlive next).2)

/-- Calls one after the other: the frontends selected, and `next_frontend` then. -/
def run : List Probes → ℕ → List (Option ℕ) × ℕ
  | [], next => ([], next)
  | isAlive :: calls, next =>
    ((selectIndex frontends isAlive next).1 ::
        (run calls (selectIndex frontends isAlive next).2).1,
      (run calls (selectIndex frontends isAlive next).2).2)

end Selection

/-! ### One call -/

variable {frontends : Frontends}

theorem idx_lt (frontends : Frontends) (start i : ℕ) : idx frontends start i < frontends.size :=
  Nat.mod_lt _ frontends.size_pos

theorem indexLoop_cases (isAlive : Probes) (start next rounds i : ℕ) :
    (∃ k < rounds, isAlive (i + k) (idx frontends start (i + k)) = true ∧
        (∀ j < k, isAlive (i + j) (idx frontends start (i + j)) = false) ∧
        indexLoop frontends isAlive start next rounds i =
          (some (idx frontends start (i + k)),
            (idx frontends start (i + k) + 1) % frontends.size)) ∨
      (∀ k < rounds, isAlive (i + k) (idx frontends start (i + k)) = false) ∧
        indexLoop frontends isAlive start next rounds i = (none, next) := by
  induction rounds generalizing i with
  | zero => exact Or.inr ⟨by simp, rfl⟩
  | succ rounds ih =>
    rw [indexLoop]
    rcases hi : isAlive i (idx frontends start i) with _ | _
    · rw [if_neg Bool.false_ne_true]
      rcases ih (i + 1) with ⟨k, hk, hyes, hno, he⟩ | ⟨hno, he⟩
      · refine Or.inl ⟨k + 1, by omega, ?_, fun j hj => ?_, ?_⟩
        · rwa [← add_assoc, add_right_comm]
        · cases j with
          | zero => exact hi
          | succ j =>
            rw [← add_assoc, add_right_comm]
            exact hno j (by omega)
        · rw [he, add_right_comm, add_assoc]
      · refine Or.inr ⟨fun k hk => ?_, he⟩
        cases k with
        | zero => exact hi
        | succ k =>
          rw [← add_assoc, add_right_comm]
          exact hno k (by omega)
    · exact Or.inl ⟨0, by omega, hi, by simp, by rw [if_pos rfl, add_zero]⟩

/-- **A call** selects the first frontend that answers, or has found that none does. -/
theorem selectIndex_cases (frontends : Frontends) (isAlive : Probes) (next : ℕ) :
    (∃ i < frontends.size, isAlive i (idx frontends next i) = true ∧
        (∀ j < i, isAlive j (idx frontends next j) = false) ∧
        selectIndex frontends isAlive next =
          (some (idx frontends next i), (idx frontends next i + 1) % frontends.size)) ∨
      (∀ i < frontends.size, isAlive i (idx frontends next i) = false) ∧
        selectIndex frontends isAlive next = (none, next) := by
  rw [selectIndex]
  simpa only [zero_add] using indexLoop_cases isAlive next next frontends.size 0

/-- A selected frontend has a text, which is not empty. -/
theorem exists_text {index : ℕ} (h : index < frontends.size) :
    ∃ f, frontends.entries[index]? = some f ∧ text frontends (some index) = f.url ∧
      text frontends (some index) ≠ [] := by
  obtain ⟨f, hf⟩ : ∃ f, frontends.entries[index]? = some f :=
    ⟨frontends.entries.get ⟨index, h⟩, List.getElem?_eq_getElem h⟩
  have htext : text frontends (some index) = f.url := by
    rw [text, hf]
    rfl
  refine ⟨f, hf, htext, ?_⟩
  rw [htext, Frontend.url]
  simp [ascii]

/-! ### Taking turns -/

/-- From this pointer the indices of a call go once round all the frontends. -/
def Fits (frontends : Frontends) (next : ℕ) : Prop :=
  next + frontends.size ≤ 2 ^ 64 ∨ frontends.size ∣ 2 ^ 64

theorem idx_of_fits {next i : ℕ} (h : Fits frontends next) (hi : i < frontends.size) :
    idx frontends next i = (next + i) % frontends.size := by
  rw [idx]
  rcases h with h | h
  · rw [Nat.mod_eq_of_lt (show next + i < 2 ^ 64 by omega)]
  · exact Nat.mod_mod_of_dvd _ h

/-- The pointers the program sets are such pointers. -/
theorem fits_of_lt {next : ℕ} (h : next < frontends.size) : Fits frontends next := by
  have hle : frontends.size ≤ 2 ^ 58 := frontends.length_le
  exact Or.inl (by omega)

theorem fits_selectIndex {next : ℕ} (h : Fits frontends next) (isAlive : Probes) :
    Fits frontends (selectIndex frontends isAlive next).2 := by
  rcases selectIndex_cases frontends isAlive next with ⟨i, -, -, -, he⟩ | ⟨-, he⟩
  · rw [he]
    exact fits_of_lt (Nat.mod_lt _ frontends.size_pos)
  · rw [he]
    exact h

theorem fits_run {next : ℕ} (h : Fits frontends next) (calls : List Probes) :
    Fits frontends (run frontends calls next).2 := by
  induction calls generalizing next with
  | nil => exact h
  | cons isAlive calls ih => exact ih (fits_selectIndex h isAlive)

/-- The frontends that answer are the live ones. -/
def Answers (live : ℕ → Bool) (isAlive : Probes) : Prop := ∀ i index, isAlive i index = live index

variable {live : ℕ → Bool}

/-- A call gives the next live frontend its turn. -/
theorem selects_selectIndex {next : ℕ} (h : Fits frontends next) {isAlive : Probes}
    (halive : Answers live isAlive) (hlive : ∃ f < frontends.size, live f = true) :
    ∃ s, Selects (fun f => live f = true) frontends.size next s ∧
      selectIndex frontends isAlive next = (some s, (s + 1) % frontends.size) := by
  rcases selectIndex_cases frontends isAlive next with ⟨i, hi, hyes, hno, he⟩ | ⟨hno, -⟩
  · refine ⟨_, ⟨i, hi, idx_of_fits h hi, (halive i _).symm.trans hyes, fun j hj => ?_⟩, he⟩
    have hdead := hno j hj
    rw [halive, idx_of_fits h (hj.trans hi)] at hdead
    exact Bool.eq_false_iff.mp hdead
  · obtain ⟨f, hf, hf'⟩ := hlive
    have hturn : ∃ s, Selects (fun f => live f = true) frontends.size next s :=
      exists_selects hf hf' next
    obtain ⟨s, i, hi, rfl, hs, -⟩ := hturn
    have hdead := hno i hi
    rw [halive, idx_of_fits h hi, hs] at hdead
    exact absurd hdead (by simp)

/-- So do all calls of a run. -/
theorem turns_run {next : ℕ} (h : Fits frontends next) {calls : List Probes}
    (halive : ∀ isAlive ∈ calls, Answers live isAlive)
    (hlive : ∃ f < frontends.size, live f = true) :
    ∃ l, Turns (fun f => live f = true) frontends.size next l ∧ l.length = calls.length ∧
      (run frontends calls next).1 = l.map some := by
  induction calls generalizing next with
  | nil => exact ⟨[], trivial, rfl, rfl⟩
  | cons isAlive calls ih =>
    obtain ⟨hfirst, hrest⟩ := List.forall_mem_cons.mp halive
    obtain ⟨s, hs, he⟩ := selects_selectIndex h hfirst hlive
    have hfits := fits_selectIndex h isAlive
    rw [he] at hfits
    obtain ⟨l, hl, hlen, hrun⟩ := ih hfits hrest
    refine ⟨s :: l, ⟨hs, hl⟩, congrArg (· + 1) hlen, ?_⟩
    rw [run, he, hrun]
    rfl

/-- **Load balancing is live and fair.** A call returns a frontend that has answered, or
the empty text when none did. While the same frontends answer, and at least one does, the
calls go through them in cyclic order, so that in `m` times as many calls as they are
each of them is returned `m` times. -/
theorem selectFrontend_fair (frontends : Frontends) :
    (∀ (isAlive : Probes) (next : ℕ),
      ((∃ i < frontends.size, ∃ f, frontends.entries[idx frontends next i]? = some f ∧
          isAlive i (idx frontends next i) = true ∧
          (selectFrontend frontends isAlive next).1 = f.url) ∨
        selectFrontend frontends isAlive next = ([], next)) ∧
      ((selectFrontend frontends isAlive next).1 = [] ↔
        ∀ i < frontends.size, isAlive i (idx frontends next i) = false)) ∧
    ∀ (next : ℕ) (before calls : List Probes) (live : ℕ → Bool), Fits frontends next →
      (∃ f < frontends.size, live f = true) → (∀ isAlive ∈ calls, Answers live isAlive) →
      (∃ c, ∀ k < calls.length,
        (run frontends calls (run frontends before next).2).1[k]? =
          some (some (Nat.nth (fun f => live f = true)
            ((c + k) % Nat.count (fun f => live f = true) frontends.size)))) ∧
      ∀ m, calls.length = m * Nat.count (fun f => live f = true) frontends.size →
        ∀ f < frontends.size, live f = true →
          (run frontends calls (run frontends before next).2).1.count (some f) = m := by
  constructor
  · intro isAlive next
    rw [selectFrontend]
    rcases selectIndex_cases frontends isAlive next with ⟨i, hi, hyes, -, he⟩ | ⟨hno, he⟩
    · obtain ⟨f, hf, htext, hne⟩ := exists_text (idx_lt frontends next i)
      rw [he]
      refine ⟨Or.inl ⟨i, hi, f, hf, hyes, htext⟩, iff_of_false hne fun hno => ?_⟩
      exact absurd ((hno i hi).symm.trans hyes) Bool.false_ne_true
    · rw [he]
      exact ⟨Or.inr rfl, iff_of_true rfl hno⟩
  · intro next before calls live hfits hlive halive
    obtain ⟨l, hl, hlen, hrun⟩ := turns_run (fits_run hfits before) halive hlive
    rw [hrun]
    refine ⟨⟨Nat.count (fun f => live f = true) ((run frontends before next).2 % frontends.size),
      fun k hk => ?_⟩, fun m hm f hf hf' => ?_⟩
    · rw [← hlen] at hk
      rw [List.getElem?_map, List.getElem?_eq_getElem hk, hl.getElem k hk, Option.map_some]
    · rw [List.count_map_of_injective _ _ (Option.some_injective ℕ)]
      exact hl.count_eq (hlen.trans hm) hf hf'

/-- The second of the three servers is down, and the others are returned twice each in
four calls. -/
theorem selectFrontend_fair_two :
    (run defaultFrontends (List.replicate 4 fun _ index => index != 1) 0).1.count (some 0) = 2 ∧
      (run defaultFrontends (List.replicate 4 fun _ index => index != 1) 0).1.count (some 2) =
        2 := by
  have hanswers : ∀ isAlive ∈ List.replicate 4 (fun _ index => index != 1 : Probes),
      Answers (· != 1) isAlive := by
    intro isAlive hmem
    obtain rfl := List.eq_of_mem_replicate hmem
    exact fun _ _ => rfl
  have hfair := ((selectFrontend_fair defaultFrontends).2 0 [] _ (· != 1) (Or.inl (by decide))
    ⟨0, by decide, rfl⟩ hanswers).2 2 (by decide)
  exact ⟨hfair 0 (by decide) rfl, hfair 2 (by decide) rfl⟩

/-- **A pointer at the end of `size_t`**: the probes go to the servers 0, 0 and 1, and the
third one, the only one alive, is not found. -/
theorem selectFrontend_wraps :
    defaultFrontends.size = 3 ∧ Answers (· == 2) (fun _ index => index == 2) ∧
      selectFrontend defaultFrontends (fun _ index => index == 2) (2 ^ 64 - 1) =
        ([], 2 ^ 64 - 1) ∧
      (run defaultFrontends [fun _ index => index == 2] (2 ^ 64 - 1)).1.count (some 2) ≠ 1 := by
  refine ⟨rfl, fun _ _ => rfl, ?_, ?_⟩ <;> decide

end LoadBalancer

end PennCloud
