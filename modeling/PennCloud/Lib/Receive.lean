import PennCloud.Lib.Text

/-!
# Reading a stream that arrives in pieces

A socket hands out what has arrived: a call asks for at most so many items and is
given one or more of them, and none only at the end of the stream. `Incoming` is a
stream with the pieces it arrives in, none of them empty, and `Receive.recv` is a
call. Every way in which calls can be answered is that of some pieces: a piece ends
wherever a call has been given less than it asked for.

The two loops that are written over such calls do not depend on the pieces.

* `Receive.collect_eq_none` and `Receive.collect_eq_some` – a loop that asks until a
  number of items is there (`Receive.collect`) takes that many, unless the stream is
  shorter;
* `Receive.readThrough_eq` – a loop that takes the items one by one until they end in a
  word (`Receive.readThrough`) takes them up to the first occurrence of the word.
-/

/-- A stream and the pieces in which it arrives. -/
structure Incoming (α : Type*) where
  /-- The pieces. -/
  pieces : List (List α)
  /-- None of them is empty. -/
  nonempty : ∀ p ∈ pieces, p ≠ []

/-- The whole stream. -/
def Incoming.items {α : Type*} (s : Incoming α) : List α := s.pieces.flatten

namespace Receive

open Text

variable {α : Type*}

/-! ### One call -/

/-- A call that asks for at most `n` items. What of the first piece is not taken is the
first piece then. -/
def recv (n : ℕ) : Incoming α → List α × Incoming α
  | ⟨[], h⟩ => ([], ⟨[], h⟩)
  | ⟨p :: ps, h⟩ =>
    if hp : n < p.length then
      (p.take n, ⟨p.drop n :: ps, List.forall_mem_cons.mpr
        ⟨fun hnil => absurd (List.drop_eq_nil_iff.mp hnil) (Nat.not_le.mpr hp),
          (List.forall_mem_cons.mp h).2⟩⟩)
    else (p, ⟨ps, (List.forall_mem_cons.mp h).2⟩)

/-- What is taken stood at the front. -/
theorem recv_append (n : ℕ) (s : Incoming α) : (recv n s).1 ++ (recv n s).2.items = s.items := by
  rcases s with ⟨_ | ⟨p, ps⟩, h⟩
  · rfl
  · rw [recv]
    split_ifs with hp
    · simp only [Incoming.items, List.flatten_cons]
      rw [← List.append_assoc, List.take_append_drop]
    · rfl

theorem length_recv_le (n : ℕ) (s : Incoming α) : (recv n s).1.length ≤ n := by
  rcases s with ⟨_ | ⟨p, ps⟩, h⟩
  · exact Nat.zero_le n
  · rw [recv]
    split_ifs with hp
    · exact List.length_take_le n p
    · exact Nat.not_lt.mp hp

/-- **Nothing is given** only at the end of the stream. -/
theorem recv_eq_nil {n : ℕ} (hn : n ≠ 0) {s : Incoming α} :
    (recv n s).1 = [] ↔ s.items = [] := by
  rcases s with ⟨_ | ⟨p, ps⟩, h⟩
  · exact iff_of_true rfl rfl
  · have hne : p ≠ [] := (List.forall_mem_cons.mp h).1
    refine iff_of_false ?_ (by simp [Incoming.items, hne])
    rw [recv]
    split_ifs with hp
    · simp [hn, hne]
    · exact hne

/-- What a call gives is missing from the stream then. -/
theorem length_items_recv (n : ℕ) (s : Incoming α) :
    (recv n s).1.length + (recv n s).2.items.length = s.items.length := by
  rw [← List.length_append, recv_append]

/-- A call for a single item. -/
theorem recv_one (s : Incoming α) : (recv 1 s).1 = s.items.take 1 := by
  have happend := recv_append 1 s
  have hle := length_recv_le 1 s
  rcases hitems : (recv 1 s).1 with _ | ⟨c, t⟩
  · rw [(recv_eq_nil one_ne_zero).mp hitems]
    rfl
  · rw [hitems] at happend hle
    obtain rfl : t = [] := List.eq_nil_of_length_eq_zero (by
      rw [List.length_cons] at hle
      omega)
    rw [← happend]
    rfl

/-! ### A number of items -/

/-- Calls, until `n` items are there; nothing, if the stream ends before. -/
def collect (n : ℕ) (s : Incoming α) : Option (List α × Incoming α) :=
  if _h : n = 0 then some ([], s)
  else if _hr : (recv n s).1 = [] then none
  else (collect (n - (recv n s).1.length) (recv n s).2).map fun r => ((recv n s).1 ++ r.1, r.2)
termination_by n
decreasing_by
  have hpos : 0 < (recv n s).1.length := List.length_pos_of_ne_nil _hr
  omega

theorem collect_zero (s : Incoming α) : collect 0 s = some ([], s) := by
  rw [collect, dif_pos rfl]

/-- A call, and then the others. -/
theorem collect_of_ne {n : ℕ} (hn : n ≠ 0) {s : Incoming α} (hs : s.items ≠ []) :
    collect n s = (collect (n - (recv n s).1.length) (recv n s).2).map fun r =>
      ((recv n s).1 ++ r.1, r.2) := by
  rw [collect, dif_neg hn, dif_neg (mt (recv_eq_nil hn).mp hs)]

/-- **As many items as are asked for** are taken off the front. -/
theorem collect_eq_some {n : ℕ} {s : Incoming α} (h : n ≤ s.items.length) :
    ∃ rest, collect n s = some (s.items.take n, rest) ∧ rest.items = s.items.drop n := by
  induction n using Nat.strong_induction_on generalizing s with
  | _ n ih =>
    rcases Nat.eq_zero_or_pos n with rfl | hn
    · exact ⟨s, collect_zero s, rfl⟩
    have hs : s.items ≠ [] := List.ne_nil_of_length_pos (hn.trans_le h)
    have hpos : 0 < (recv n s).1.length :=
      List.length_pos_of_ne_nil (mt (recv_eq_nil hn.ne').mp hs)
    have hle := length_recv_le n s
    have hlen := length_items_recv n s
    obtain ⟨rest, hrest, hitems⟩ :=
      ih (n - (recv n s).1.length) (by omega) (s := (recv n s).2) (by omega)
    refine ⟨rest, ?_, ?_⟩
    · rw [collect_of_ne hn.ne' hs, hrest, Option.map_some]
      rw [← recv_append n s, List.take_append, List.take_of_length_le hle]
    · rw [hitems, ← recv_append n s, List.drop_append, List.drop_of_length_le hle,
        List.nil_append]

/-- A stream that is too short. -/
theorem collect_eq_none {n : ℕ} {s : Incoming α} (h : s.items.length < n) :
    collect n s = none := by
  induction n using Nat.strong_induction_on generalizing s with
  | _ n ih =>
    have hn : n ≠ 0 := by omega
    by_cases hs : s.items = []
    · rw [collect, dif_neg hn, dif_pos ((recv_eq_nil hn).mpr hs)]
    · have hpos : 0 < (recv n s).1.length :=
        List.length_pos_of_ne_nil (mt (recv_eq_nil hn).mp hs)
      have hlen := length_items_recv n s
      rw [collect_of_ne hn hs, ih _ (by omega) (by omega), Option.map_none]

/-! ### Up to a word -/

variable [DecidableEq α]

/-- Calls for a single item, put behind a text until it ends in the word or the stream
does. -/
def readThrough (w : List α) (text : List α) (s : Incoming α) : List α × Incoming α :=
  if _h : (recv 1 s).1 = [] then (text, (recv 1 s).2)
  else if w <:+ text ++ (recv 1 s).1 then (text ++ (recv 1 s).1, (recv 1 s).2)
  else readThrough w (text ++ (recv 1 s).1) (recv 1 s).2
termination_by s.items.length
decreasing_by
  have hpos : 0 < (recv 1 s).1.length := List.length_pos_of_ne_nil _h
  have hlen := length_items_recv 1 s
  omega

/-- What a text is cut into when all of it is read up to a word. -/
def cutBehind (w : List α) (s : List α) : List α × List α :=
  match cut w s with
  | none => (s, [])
  | some (p, q) => (p ++ w, q)

variable {w : List α}

/-- A word that has just become complete. -/
theorem cutBehind_of_isSuffix {u v : List α} (hw : w ≠ []) (h : ¬w <:+: u.dropLast)
    (hu : w <:+ u) : cutBehind w (u ++ v) = (u, v) := by
  obtain ⟨p, rfl⟩ := hu
  have hfirst : FirstBehind w p := by
    rw [List.dropLast_append_of_ne_nil hw] at h
    exact h
  rw [cutBehind, List.append_assoc, cut_of_firstBehind hfirst]

/-- **A stream is read up to the first occurrence of the word**, in whatever pieces it
comes. -/
theorem readThrough_eq (hw : w ≠ []) {text : List α} {s : Incoming α} (h : ¬w <:+: text) :
    ((readThrough w text s).1, (readThrough w text s).2.items) = cutBehind w (text ++ s.items) := by
  induction hlen : s.items.length generalizing text s with
  | zero =>
    have hnil : s.items = [] := List.eq_nil_of_length_eq_zero hlen
    have hrecv : (recv 1 s).1 = [] := (recv_eq_nil one_ne_zero).mpr hnil
    have hrest : (recv 1 s).2.items = [] := by
      have happend := recv_append 1 s
      rwa [hrecv, List.nil_append, hnil] at happend
    have hnone : cut w text = none := by
      rw [← Option.not_isSome_iff_eq_none, isSome_cut]
      exact h
    rw [readThrough, dif_pos hrecv, hrest, hnil, List.append_nil, cutBehind, hnone]
  | succ n ih =>
    obtain ⟨c, t, ht⟩ : ∃ c t, s.items = c :: t :=
      List.exists_cons_of_length_pos (by omega)
    have hrecv : (recv 1 s).1 = [c] := by
      rw [recv_one, ht]
      rfl
    have hrest : (recv 1 s).2.items = t := by
      have happend := recv_append 1 s
      rw [hrecv, ht] at happend
      exact (List.cons.inj happend).2
    have hassoc : text ++ s.items = (text ++ [c]) ++ t := by
      rw [ht, List.append_assoc]
      rfl
    rw [readThrough, dif_neg (by simp [hrecv]), hrecv, hassoc]
    split_ifs with hword
    · have hbefore : ¬w <:+: (text ++ [c]).dropLast := by rwa [List.dropLast_concat]
      rw [cutBehind_of_isSuffix hw hbefore hword, hrest]
    · -- no occurrence ends at the new item, and none has ended before
      have hnot : ¬w <:+: text ++ [c] := fun hin =>
        (List.infix_concat_iff.mp hin).elim hword h
      have hshort : (recv 1 s).2.items.length = n := by
        rw [hrest]
        rw [ht, List.length_cons] at hlen
        exact Nat.succ.inj hlen
      rw [ih hnot hshort, hrest]

end Receive
