import PennCloud.Lib.Wire
import Mathlib.Data.List.Infix

/-!
# Text taken apart

The handful of string operations a program that keeps paths and lists in plain
strings is made of.

* `Text.afterLast` and `Text.beforeLast` cut at the last occurrence of a
  character, the way one takes the last name off a path. What is cut off is
  `Text.afterLast_append` and `Text.beforeLast_append` again.
* `List.splitOn` cuts at every occurrence; `Text.notMem_of_mem_splitOn` says that
  no piece contains the character, and `Text.mem_splitOn_intercalate` what the
  pieces are of a list that was joined.
* `Text.cut` cuts at the first occurrence of a word. It finds one whenever there
  is one (`Text.isSome_cut`), and which one it finds does not depend on what comes
  after (`Text.cut_append`). A word that is put behind a text is found there, if it does
  not begin before (`Text.FirstBehind`, `Text.cut_of_firstBehind`).
* `Text.decimal` writes a number; it is a non-empty row of digits
  (`Text.isDigit_of_mem_decimal`) and determines the number
  (`Text.decimal_injective`). `Text.hexadecimal` does so in base 16, and
  `Text.foldl_hexadecimal` is how its digits are read.
-/

namespace Text

open Wire

section Pieces

variable {α : Type*} [BEq α] [LawfulBEq α] {c : α} {s t : List α}

/-- What follows the last `c`; everything, when there is none. -/
def afterLast (c : α) (s : List α) : List α := (s.splitOn c).getLastD []

/-- What precedes the last `c`; nothing, when there is none. -/
def beforeLast (c : α) (s : List α) : List α := [c].intercalate (s.splitOn c).dropLast

theorem afterLast_of_notMem (h : c ∉ s) : afterLast c s = s := by
  rw [afterLast, List.splitOn_eq_singleton h]
  rfl

theorem beforeLast_of_notMem (h : c ∉ s) : beforeLast c s = [] := by
  rw [beforeLast, List.splitOn_eq_singleton h]
  rfl

theorem afterLast_append (s : List α) (h : c ∉ t) : afterLast c (s ++ c :: t) = t := by
  rw [afterLast, List.splitOn_append_cons_self, List.splitOn_eq_singleton h]
  simp

theorem beforeLast_append (s : List α) (h : c ∉ t) : beforeLast c (s ++ c :: t) = s := by
  rw [beforeLast, List.splitOn_append_cons_self, List.splitOn_eq_singleton h,
    List.dropLast_concat, List.intercalate_splitOn]

/-- No piece contains the character the text was cut at. -/
theorem notMem_of_mem_splitOn {e : List α} (h : e ∈ s.splitOn c) : c ∉ e := by
  induction s generalizing e with
  | nil =>
    obtain rfl : e = [] := by simpa using h
    exact List.not_mem_nil
  | cons x s ih =>
    rw [List.splitOn_cons_eq_if_modifyHead] at h
    split_ifs at h with hx
    · rcases List.mem_cons.mp h with rfl | h
      · exact List.not_mem_nil
      · exact ih h
    · rcases hs : s.splitOn c with _ | ⟨p, ps⟩
      · exact absurd hs (List.splitOn_ne_nil c s)
      · rw [hs, List.modifyHead_cons] at h
        rcases List.mem_cons.mp h with rfl | h
        · intro hmem
          rcases List.mem_cons.mp hmem with rfl | hmem
          · simp at hx
          · exact ih (hs ▸ List.mem_cons_self) hmem
        · exact ih (hs ▸ List.mem_cons_of_mem p h)

omit [BEq α] [LawfulBEq α] in
/-- Behind the first piece there is nothing, or the other pieces. -/
theorem intercalate_cons_cases (c : α) (p : List α) (ps : List (List α)) :
    ∃ rest, [c].intercalate (p :: ps) = p ++ rest ∧
      ((ps = [] ∧ rest = []) ∨ (ps ≠ [] ∧ rest = c :: [c].intercalate ps)) := by
  rcases ps with _ | ⟨q, ps⟩
  · exact ⟨[], by rw [List.intercalate_singleton, List.append_nil], Or.inl ⟨rfl, rfl⟩⟩
  · refine ⟨c :: [c].intercalate (q :: ps), ?_, Or.inr ⟨List.cons_ne_nil q ps, rfl⟩⟩
    rw [List.intercalate_cons_cons, List.append_assoc]
    rfl

omit [BEq α] [LawfulBEq α] in
/-- What stands around one of the pieces in the joined text. -/
theorem exists_intercalate {ps : List (List α)} {p : List α} (h : p ∈ ps) :
    ∃ before after, [c].intercalate ps = before ++ (p ++ after) ∧
      (before = [] ∨ ∃ q, before = q ++ [c]) ∧ (after = [] ∨ ∃ q, after = c :: q) := by
  induction ps with
  | nil => exact absurd h List.not_mem_nil
  | cons q ps ih =>
    rcases ps with _ | ⟨q', ps⟩
    · refine ⟨[], [], ?_, Or.inl rfl, Or.inl rfl⟩
      rw [List.mem_singleton.mp h, List.intercalate_singleton, List.append_nil, List.nil_append]
    · rw [List.intercalate_cons_cons, List.append_assoc]
      rcases List.mem_cons.mp h with rfl | h
      · exact ⟨[], _, rfl, Or.inl rfl, Or.inr ⟨_, rfl⟩⟩
      · obtain ⟨before, after, heq, hbefore, hafter⟩ := ih h
        refine ⟨q ++ ([c] ++ before), after, by rw [heq]; simp, Or.inr ?_, hafter⟩
        rcases hbefore with rfl | ⟨r, rfl⟩
        · exact ⟨q, by simp⟩
        · exact ⟨q ++ ([c] ++ r), by simp⟩

/-- What stands around one of the pieces of a text. -/
theorem exists_of_mem_splitOn {p : List α} (h : p ∈ s.splitOn c) :
    ∃ before after, s = before ++ (p ++ after) ∧
      (before = [] ∨ ∃ q, before = q ++ [c]) ∧ (after = [] ∨ ∃ q, after = c :: q) := by
  have hpiece := @exists_intercalate α c (s.splitOn c) p h
  rwa [List.intercalate_splitOn] at hpiece

/-- What is in a piece is in the text. -/
theorem mem_of_mem_splitOn {b : α} {e : List α} (h : e ∈ s.splitOn c) (hb : b ∈ e) : b ∈ s := by
  obtain ⟨before, after, hs, -, -⟩ := exists_of_mem_splitOn h
  rw [hs]
  exact List.mem_append_right before (List.mem_append_left after hb)

/-- A piece is shorter than a text with the character. -/
theorem length_lt_of_mem_splitOn {p : List α} (h : p ∈ s.splitOn c) (hc : c ∈ s) :
    p.length < s.length := by
  obtain ⟨before, after, hs, -, -⟩ := exists_of_mem_splitOn h
  refine lt_of_le_of_ne ?_ fun hlen => ?_
  · rw [hs, List.length_append, List.length_append]
    omega
  · have hnil : before = [] ∧ after = [] := by
      rw [hs, List.length_append, List.length_append] at hlen
      exact ⟨List.eq_nil_of_length_eq_zero (by omega), List.eq_nil_of_length_eq_zero (by omega)⟩
    rw [hs, hnil.1, hnil.2, List.nil_append, List.append_nil] at hc
    exact notMem_of_mem_splitOn h hc

/-- Nor does a piece that a loop of `getline` yields. -/
theorem notMem_of_mem_getlines {delim : UInt8} {text p : Bytes} (h : p ∈ getlines delim text) :
    delim ∉ p := by
  rw [getlines] at h
  split_ifs at h
  · exact notMem_of_mem_splitOn (List.mem_of_mem_dropLast h)
  · exact notMem_of_mem_splitOn h

theorem mem_of_mem_getlines {delim b : UInt8} {text p : Bytes} (h : p ∈ getlines delim text)
    (hb : b ∈ p) : b ∈ text := by
  rw [getlines] at h
  split_ifs at h
  · exact mem_of_mem_splitOn (List.mem_of_mem_dropLast h) hb
  · exact mem_of_mem_splitOn h hb

omit [BEq α] [LawfulBEq α] in
/-- What is in none of the pieces is not in the joined text. -/
theorem notMem_intercalate {b : α} {ps : List (List α)} (h : ∀ p ∈ ps, b ∉ p) (hb : b ≠ c) :
    b ∉ [c].intercalate ps := by
  induction ps with
  | nil => simp [List.intercalate]
  | cons p ps ih =>
    have hp := h p List.mem_cons_self
    have hps := ih fun q hq => h q (List.mem_cons_of_mem p hq)
    rcases ps with _ | ⟨q, ps⟩
    · simpa [List.intercalate] using hp
    · simp only [List.intercalate, List.intersperse_cons_cons, List.flatten_cons,
        List.mem_append, List.mem_singleton, not_or] at hps ⊢
      exact ⟨hp, hb, hps⟩

theorem notMem_afterLast (c : α) (s : List α) : c ∉ afterLast c s := by
  rcases hl : (s.splitOn c).getLast? with _ | e
  · exact absurd (List.getLast?_eq_none_iff.mp hl) (List.splitOn_ne_nil c s)
  · rw [afterLast, List.getLastD_eq_getLast?, hl]
    exact notMem_of_mem_splitOn (List.mem_of_getLast? hl)

theorem mem_of_mem_afterLast {b : α} (h : b ∈ afterLast c s) : b ∈ s := by
  rcases hl : (s.splitOn c).getLast? with _ | e
  · exact absurd (List.getLast?_eq_none_iff.mp hl) (List.splitOn_ne_nil c s)
  · rw [afterLast, List.getLastD_eq_getLast?, hl] at h
    exact mem_of_mem_splitOn (List.mem_of_getLast? hl) h

/-- A text is what precedes its last `c`, then `c`, then what follows. -/
theorem beforeLast_append_afterLast (h : c ∈ s) :
    beforeLast c s ++ c :: afterLast c s = s := by
  obtain ⟨a, b, hs, ha⟩ := List.eq_append_cons_of_mem (List.mem_reverse.mpr h)
  have hs' : s = b.reverse ++ c :: a.reverse := by
    rw [← List.reverse_reverse s, hs]
    simp
  have hc : c ∉ a.reverse := fun hmem => ha (List.mem_reverse.mp hmem)
  rw [hs', beforeLast_append _ hc, afterLast_append _ hc]

/-- What is put behind a text is behind its last `c`. -/
theorem afterLast_append_of_notMem (s : List α) (ht : c ∉ t) :
    afterLast c (s ++ t) = afterLast c s ++ t := by
  by_cases hmem : c ∈ s
  · have hnot : c ∉ afterLast c s ++ t := by
      rw [List.mem_append]
      exact not_or.mpr ⟨notMem_afterLast c s, ht⟩
    conv_lhs => rw [← beforeLast_append_afterLast hmem]
    rw [List.append_assoc, List.cons_append, afterLast_append _ hnot]
  · rw [afterLast_of_notMem hmem, afterLast_of_notMem]
    rw [List.mem_append]
    exact not_or.mpr ⟨hmem, ht⟩

/-- Pieces joined again: a list of pieces without the character is what cutting
the joined text gives, an empty list counting as one empty piece. -/
theorem mem_splitOn_intercalate {ps : List (List α)} (h : ∀ p ∈ ps, c ∉ p) {e : List α} :
    e ∈ ([c].intercalate ps).splitOn c ↔ e ∈ ps ∨ (ps = [] ∧ e = []) := by
  rcases ps with _ | ⟨p, ps⟩
  · simp
  · rw [List.splitOn_intercalate c h (List.cons_ne_nil p ps)]
    simp

omit [BEq α] [LawfulBEq α] in
/-- One piece more at the end. -/
theorem intercalate_concat {ps : List (List α)} (hne : ps ≠ []) (c : α) (p : List α) :
    [c].intercalate (ps ++ [p]) = [c].intercalate ps ++ c :: p := by
  induction ps with
  | nil => exact absurd rfl hne
  | cons q ps ih =>
    rcases eq_or_ne ps [] with rfl | hps
    · simp
    · rw [List.cons_append, List.intercalate_cons_of_ne_nil (by simp), ih hps,
        List.intercalate_cons_of_ne_nil hps]
      simp

/-- Joined pieces have a separator less than there are pieces. -/
theorem count_intercalate {ps : List (List α)} (h : ∀ p ∈ ps, c ∉ p) (hne : ps ≠ []) :
    ([c].intercalate ps).count c + 1 = ps.length := by
  induction ps with
  | nil => exact absurd rfl hne
  | cons p ps ih =>
    obtain ⟨hp, hps⟩ := List.forall_mem_cons.mp h
    rcases eq_or_ne ps [] with rfl | hne'
    · simp [List.count_eq_zero_of_not_mem hp]
    · rw [List.intercalate_cons_of_ne_nil hne', List.length_cons, ← ih hps hne']
      simp [List.count_eq_zero_of_not_mem hp]

/-- **There is a piece more than there are separators.** -/
theorem length_splitOn (s : List α) (c : α) : (s.splitOn c).length = s.count c + 1 := by
  have hcount := count_intercalate (fun p hp => notMem_of_mem_splitOn (s := s) (c := c) hp)
    (List.splitOn_ne_nil c s)
  rw [List.intercalate_splitOn] at hcount
  exact hcount.symm

omit [BEq α] [LawfulBEq α] in
/-- Two texts that are cut at their first `c`, or not at all, have the same parts
when they are the same. -/
theorem append_inj_of_notMem {s' t' : List α} (hs : c ∉ s) (hs' : c ∉ s')
    (ht : ∀ b ∈ t.head?, b = c) (ht' : ∀ b ∈ t'.head?, b = c) (h : s ++ t = s' ++ t') :
    s = s' ∧ t = t' := by
  induction s generalizing s' with
  | nil =>
    rcases s' with _ | ⟨x, s'⟩
    · exact ⟨rfl, h⟩
    · rw [List.nil_append] at h
      exact absurd (ht x (by simp [h])) fun hx => hs' (hx ▸ List.mem_cons_self)
  | cons x s ih =>
    rcases s' with _ | ⟨y, s'⟩
    · rw [List.nil_append] at h
      exact absurd (ht' x (by simp [← h])) fun hx => hs (hx ▸ List.mem_cons_self)
    · obtain ⟨rfl, hrest⟩ := List.cons.inj h
      obtain ⟨rfl, rfl⟩ := ih (fun hmem => hs (List.mem_cons_of_mem x hmem))
        (fun hmem => hs' (List.mem_cons_of_mem x hmem)) hrest
      exact ⟨rfl, rfl⟩

end Pieces

/-! ### Words -/

section Words

variable {α : Type*} [DecidableEq α] {w s p q : List α}

/-- What precedes and what follows the first occurrence of a word, `std::string::find`. -/
def cut (w : List α) : List α → Option (List α × List α)
  | [] => if w = [] then some ([], []) else none
  | x :: s =>
    if w.isPrefixOf (x :: s) then some ([], (x :: s).drop w.length)
    else (cut w s).map fun r => (x :: r.1, r.2)

/-- What precedes and what follows the last occurrence of a word, `std::string::rfind`. -/
def cutLast (w s : List α) : Option (List α × List α) :=
  (cut w.reverse s.reverse).map fun r => (r.2.reverse, r.1.reverse)

theorem cut_at_start {w s : List α} (hs : w <+: s) : cut w s = some ([], s.drop w.length) := by
  rcases s with _ | ⟨x, s⟩
  · obtain rfl := List.prefix_nil.mp hs
    rfl
  · rw [cut, if_pos (List.isPrefixOf_iff_prefix.mpr hs)]

theorem cut_cons {x : α} (hs : ¬ w <+: x :: s) :
    cut w (x :: s) = (cut w s).map fun r => (x :: r.1, r.2) := by
  rw [cut, if_neg (fun h => hs (List.isPrefixOf_iff_prefix.mp h))]

/-- A word is found exactly when it occurs. -/
theorem isSome_cut : (cut w s).isSome = true ↔ w <:+: s := by
  induction s with
  | nil => by_cases hw : w = [] <;> simp [cut, hw]
  | cons x s ih =>
    rw [List.infix_cons_iff]
    by_cases h : w <+: x :: s
    · simp [cut_at_start h, h]
    · simp only [cut_cons h, Option.isSome_map, ih, h, false_or]

theorem eq_append_of_cut (h : cut w s = some (p, q)) : s = p ++ w ++ q := by
  induction s generalizing p with
  | nil =>
    by_cases hw : w = []
    · obtain ⟨rfl, rfl⟩ : [] = p ∧ [] = q := by simpa [cut, hw] using h
      simp [hw]
    · simp [cut, hw] at h
  | cons x s ih =>
    by_cases hx : w <+: x :: s
    · obtain ⟨rfl, rfl⟩ : [] = p ∧ (x :: s).drop w.length = q := by
        simpa [cut_at_start hx] using h
      rw [List.nil_append]
      exact (List.prefix_iff_eq_append.mp hx).symm
    · rw [cut_cons hx, Option.map_eq_some_iff] at h
      obtain ⟨⟨p', q'⟩, h', heq⟩ := h
      obtain ⟨rfl, rfl⟩ := Prod.mk.inj heq
      rw [ih h']
      simp

/-- **The first occurrence stays the first** when more text follows. -/
theorem cut_append (h : cut w s = some (p, q)) (t : List α) :
    cut w (s ++ t) = some (p, q ++ t) := by
  induction s generalizing p with
  | nil =>
    by_cases hw : w = []
    · obtain ⟨rfl, rfl⟩ : [] = p ∧ [] = q := by simpa [cut, hw] using h
      subst hw
      rw [List.nil_append, cut_at_start List.nil_prefix]
      rfl
    · simp [cut, hw] at h
  | cons x s ih =>
    by_cases hx : w <+: x :: s
    · obtain ⟨rfl, rfl⟩ : [] = p ∧ (x :: s).drop w.length = q := by
        simpa [cut_at_start hx] using h
      rw [cut_at_start (hx.trans (List.prefix_append _ t)),
        List.drop_append_of_le_length hx.length_le]
    · rw [cut_cons hx, Option.map_eq_some_iff] at h
      obtain ⟨⟨p', q'⟩, h', heq⟩ := h
      obtain ⟨rfl, rfl⟩ := Prod.mk.inj heq
      -- an occurrence that runs into what follows would begin after the one in `s`
      have hlen : w.length ≤ (x :: s).length := by
        have hs := congrArg List.length (eq_append_of_cut h')
        simp only [List.length_append] at hs
        simp only [List.length_cons]
        omega
      have hx' : ¬ w <+: x :: (s ++ t) := fun hw =>
        hx (List.prefix_of_prefix_length_le hw (List.prefix_append (x :: s) t) hlen)
      rw [List.cons_append, cut_cons hx', ih h']
      rfl

/-- A word that does not occur before a character it does not contain is looked
for behind it. -/
theorem cut_append_cons (hs : ¬ w <:+: s) {c : α} (hc : c ∉ w) (t : List α) :
    cut w (s ++ c :: t) = (cut w (c :: t)).map fun r => (s ++ r.1, r.2) := by
  induction s with
  | nil => simp
  | cons x s ih =>
    have hx : ¬ w <+: x :: (s ++ c :: t) := by
      intro hw
      rcases List.prefix_or_prefix_of_prefix hw (List.prefix_append (x :: s) (c :: t)) with
        h | ⟨r, rfl⟩
      · exact hs h.isInfix
      · rcases r with _ | ⟨y, r⟩
        · exact hs (by simp)
        · have hr : y :: r <+: c :: t :=
            (List.prefix_append_right_inj (x :: s)).mp (by simpa using hw)
          obtain rfl : y = c := (List.cons_prefix_cons.mp hr).1
          exact hc (by simp)
    rw [List.cons_append, cut_cons hx, ih fun h => hs (h.trans (List.suffix_cons x s).isInfix),
      Option.map_map]
    rfl

/-- An occurrence does not go across a character that the word does not contain. -/
theorem infix_append_cons {t : List α} {c : α} (hc : c ∉ w) (h : w <:+: s ++ c :: t) :
    w <:+: s ∨ w <:+: c :: t := by
  by_cases hs : w <:+: s
  · exact Or.inl hs
  · refine Or.inr (isSome_cut.mp ?_)
    rw [← isSome_cut, cut_append_cons hs hc, Option.isSome_map] at h
    exact h

omit [DecidableEq α] in
/-- An occurrence begins with the first character of the word. -/
theorem infix_of_append {x : α} {t : List α} (hx : x ∉ s) (h : x :: w <:+: s ++ t) :
    x :: w <:+: t := by
  induction s with
  | nil => exact h
  | cons y s ih =>
    rw [List.cons_append, List.infix_cons_iff] at h
    rcases h with h | h
    · exact absurd (List.cons_prefix_cons.mp h).1 (List.ne_of_not_mem_cons hx)
    · exact ih (List.not_mem_of_not_mem_cons hx) h

omit [DecidableEq α] in
/-- An occurrence does not go across the character it begins with. -/
theorem infix_append_first {x : α} {t : List α} (hx : x ∉ w) (h : x :: w <:+: s ++ x :: t) :
    x :: w <:+: s ∨ x :: w <:+: x :: t := by
  induction s with
  | nil => exact Or.inr h
  | cons y s ih =>
    rw [List.cons_append, List.infix_cons_iff] at h
    rcases h with h | h
    · obtain ⟨rfl, hw⟩ := List.cons_prefix_cons.mp h
      -- it ends before the next `x`
      rcases List.prefix_or_prefix_of_prefix hw (List.prefix_append s (x :: t)) with hs | ⟨r, rfl⟩
      · exact Or.inl (List.cons_prefix_cons.mpr ⟨rfl, hs⟩).isInfix
      · rcases r with _ | ⟨z, r⟩
        · exact Or.inl (by simp)
        · have hr := (List.prefix_append_right_inj s).mp hw
          obtain ⟨rfl, -⟩ := List.cons_prefix_cons.mp hr
          exact absurd (List.mem_append_right s List.mem_cons_self) hx
    · exact (ih h).imp_left fun h => h.trans (List.suffix_cons y s).isInfix

/-- Where the first character of a word does not stand, it does not begin. -/
theorem cut_append_of_notMem {x : α} (hx : x ∉ s) (t : List α) :
    cut (x :: w) (s ++ t) = (cut (x :: w) t).map fun r => (s ++ r.1, r.2) := by
  induction s with
  | nil => simp
  | cons y s ih =>
    have hy : ¬ x :: w <+: y :: (s ++ t) := fun h =>
      List.ne_of_not_mem_cons hx (List.cons_prefix_cons.mp h).1
    rw [List.cons_append, cut_cons hy, ih (List.not_mem_of_not_mem_cons hx), Option.map_map]
    rfl

/-- A word that is put behind a text is found there, and not before. -/
def FirstBehind (w s : List α) : Prop := ¬ w <:+: s ++ w.dropLast

instance (w s : List α) : Decidable (FirstBehind w s) := inferInstanceAs (Decidable (¬ _))

theorem cut_of_firstBehind (h : FirstBehind w s) (t : List α) :
    cut w (s ++ (w ++ t)) = some (s, t) := by
  induction s with
  | nil =>
    rw [List.nil_append, cut_at_start (List.prefix_append w t), List.drop_left]
  | cons x s ih =>
    have hx : ¬ w <+: x :: (s ++ (w ++ t)) := by
      intro hw
      have hpre : x :: s ++ w.dropLast <+: x :: (s ++ (w ++ t)) := by
        rw [List.cons_append, List.cons_prefix_cons]
        refine ⟨rfl, (List.prefix_append_right_inj s).mpr ?_⟩
        exact (List.dropLast_prefix w).trans (List.prefix_append w t)
      have hlen : w.length ≤ (x :: s ++ w.dropLast).length := by
        simp only [List.length_append, List.length_cons, List.length_dropLast]
        omega
      exact h (List.prefix_of_prefix_length_le hw hpre hlen).isInfix
    have hs : FirstBehind w s := fun hw => h (hw.trans (List.suffix_cons x _).isInfix)
    rw [List.cons_append, cut_cons hx, ih hs]
    rfl

omit [DecidableEq α] in
/-- Where the first character of the word does not stand. -/
theorem firstBehind_of_notMem {x : α} (hx : x ∉ s) : FirstBehind (x :: w) s := by
  intro h
  have hlen := (infix_of_append hx h).length_le
  rw [List.length_dropLast, List.length_cons] at hlen
  omega

omit [DecidableEq α] in
theorem FirstBehind.of_append {t : List α} (h : FirstBehind w (s ++ t)) : FirstBehind w t := by
  intro hw
  rw [FirstBehind, List.append_assoc] at h
  exact h (hw.trans (List.suffix_append s _).isInfix)

omit [DecidableEq α] in
/-- As long as the text is incomplete, the word has to be complete to occur. -/
theorem FirstBehind.prefix_of_occurs {t u : List α} (h : FirstBehind w s) (hw : w <:+: u)
    (hu : u <+: s ++ (w ++ t)) : s ++ w <+: u := by
  rw [← List.append_assoc] at hu
  rcases List.prefix_or_prefix_of_prefix (List.prefix_append (s ++ w) t) hu with hpre | hpre
  · exact hpre
  · by_cases hlen : u.length = (s ++ w).length
    · rw [hpre.eq_of_length hlen]
    · -- then all of it stands before the last character of the word
      have hlast : u <+: s ++ w.dropLast := by
        have hlt := hpre.length_le
        have hdrop : s ++ w.dropLast <+: s ++ w :=
          (List.prefix_append_right_inj s).mpr (List.dropLast_prefix w)
        refine List.prefix_of_prefix_length_le hpre hdrop ?_
        simp only [List.length_append, List.length_dropLast] at hlen hlt ⊢
        omega
      exact absurd (hw.trans hlast.isInfix) h

omit [DecidableEq α] in
theorem FirstBehind.cons {x : α} (hx : ¬ w <+: x :: (s ++ w.dropLast)) (h : FirstBehind w s) :
    FirstBehind w (x :: s) := by
  rw [FirstBehind, List.cons_append, List.infix_cons_iff]
  exact fun hw => hw.elim hx h

omit [DecidableEq α] in
/-- A word with a character that does not stand in a text. -/
theorem not_infix_of_notMem {c : α} (hc : c ∈ w) (hs : c ∉ s) : ¬ w <:+: s :=
  fun h => hs (h.subset hc)

/-- The last occurrence, from what follows it. -/
theorem cutLast_of_not_infix (h : ¬ w <:+: w.tail ++ q) (p : List α) :
    cutLast w (p ++ (w ++ q)) = some (p, q) := by
  have hfirst : FirstBehind w.reverse q.reverse := by
    rw [FirstBehind, List.dropLast_reverse, ← List.reverse_append, List.reverse_infix]
    exact h
  have hreverse : (p ++ (w ++ q)).reverse = q.reverse ++ (w.reverse ++ p.reverse) := by
    rw [List.reverse_append, List.reverse_append, List.append_assoc]
  rw [cutLast, hreverse, cut_of_firstBehind hfirst, Option.map_some, List.reverse_reverse,
    List.reverse_reverse]

end Words

/-! ### Characters -/

/-- `isspace`. -/
def isSpace (b : UInt8) : Bool := b == 32 || (9 ≤ b && b ≤ 13)

/-- The value of a hexadecimal digit. -/
def hexDigit (b : UInt8) : Option UInt8 :=
  if 48 ≤ b && b ≤ 57 then some (b - 48)
  else if 65 ≤ b && b ≤ 70 then some (b - 55)
  else if 97 ≤ b && b ≤ 102 then some (b - 87)
  else none

/-! ### Numbers -/

/-- A number in decimal, `std::to_string`. -/
def decimal (n : ℕ) : Bytes := ascii (toString n)

/-- The bytes of the decimal digits. -/
def IsDigit (b : UInt8) : Prop := 48 ≤ b.toNat ∧ b.toNat ≤ 57

theorem decimal_eq (n : ℕ) :
    decimal n = (Nat.toDigits 10 n).map fun c => UInt8.ofNat c.toNat := by
  rw [decimal, ascii, Nat.toString_eq_ofList_toDigits, String.toList_ofList]

theorem toNat_of_isDigit {c : Char} (h : c.isDigit = true) :
    48 ≤ c.toNat ∧ c.toNat ≤ 57 := by
  simp only [Char.isDigit, Bool.and_eq_true, decide_eq_true_eq] at h
  exact ⟨UInt32.le_iff_toNat_le.mp h.1, UInt32.le_iff_toNat_le.mp h.2⟩

theorem isDigit_of_mem_decimal {n : ℕ} {b : UInt8} (h : b ∈ decimal n) : IsDigit b := by
  rw [decimal_eq] at h
  obtain ⟨c, hc, rfl⟩ := List.mem_map.mp h
  obtain ⟨hlo, hhi⟩ := toNat_of_isDigit (Nat.isDigit_of_mem_toDigits (by omega) (by omega) hc)
  have hnat : (UInt8.ofNat c.toNat).toNat = c.toNat := by
    rw [UInt8.toNat_ofNat', Nat.mod_eq_of_lt (by omega)]
  rw [IsDigit, hnat]
  exact ⟨hlo, hhi⟩

theorem decimal_ne_nil (n : ℕ) : decimal n ≠ [] := by
  rw [decimal_eq]
  simp [Nat.toDigits_ne_nil]

/-- **A number is determined by its decimal text.** -/
theorem decimal_injective : Function.Injective decimal := by
  intro m n h
  rw [decimal_eq, decimal_eq] at h
  have hdigits : Nat.toDigits 10 m = Nat.toDigits 10 n := by
    have hback : ∀ k, (Nat.toDigits 10 k).map (fun c => Char.ofNat (UInt8.ofNat c.toNat).toNat)
        = Nat.toDigits 10 k := by
      intro k
      refine (List.map_congr_left fun c hc => ?_).trans (List.map_id _)
      obtain ⟨-, hhi⟩ := toNat_of_isDigit (Nat.isDigit_of_mem_toDigits (by omega) (by omega) hc)
      rw [UInt8.toNat_ofNat', Nat.mod_eq_of_lt (by omega), Char.ofNat_toNat, id]
    have h' := congrArg (List.map fun b : UInt8 => Char.ofNat b.toNat) h
    rw [List.map_map, List.map_map] at h'
    rw [← hback m, ← hback n]
    exact h'
  have hm := Nat.ofDigitChars_ten_toDigits (n := m)
  rw [hdigits, Nat.ofDigitChars_ten_toDigits] at hm
  exact hm.symm

/-- A number in hexadecimal, `%zx`. -/
def hexadecimal (n : ℕ) : Bytes := (Nat.toDigits 16 n).map fun c => UInt8.ofNat c.toNat

/-- The digits up to 15 have their own values. -/
theorem hexDigit_digitChar {d : ℕ} (h : d < 16) :
    hexDigit (UInt8.ofNat d.digitChar.toNat) = some (UInt8.ofNat d) := by
  have hall : ∀ d : Fin 16, hexDigit (UInt8.ofNat (d : ℕ).digitChar.toNat) =
      some (UInt8.ofNat d) := by decide
  exact hall ⟨d, h⟩

theorem hexadecimal_of_lt {n : ℕ} (h : n < 16) :
    hexadecimal n = [UInt8.ofNat n.digitChar.toNat] := by
  rw [hexadecimal, Nat.toDigits_of_lt_base h]
  rfl

/-- The last digit and the others. -/
theorem hexadecimal_of_le {n : ℕ} (h : 16 ≤ n) :
    hexadecimal n = hexadecimal (n / 16) ++ [UInt8.ofNat (n % 16).digitChar.toNat] := by
  rw [hexadecimal, Nat.toDigits_of_base_le (by omega) h, List.map_append]
  rfl

theorem hexadecimal_ne_nil (n : ℕ) : hexadecimal n ≠ [] := by
  simp [hexadecimal, Nat.toDigits_ne_nil]

theorem isSome_hexDigit_of_mem {n : ℕ} {b : UInt8} (h : b ∈ hexadecimal n) :
    (hexDigit b).isSome := by
  induction n using Nat.strong_induction_on with
  | _ n ih =>
    rcases Nat.lt_or_ge n 16 with hn | hn
    · rw [hexadecimal_of_lt hn, List.mem_singleton] at h
      rw [h, hexDigit_digitChar hn]
      rfl
    · rw [hexadecimal_of_le hn, List.mem_append, List.mem_singleton] at h
      rcases h with h | rfl
      · exact ih (n / 16) (by omega) h
      · rw [hexDigit_digitChar (Nat.mod_lt n (by omega))]
        rfl

/-- **A number is what its hexadecimal digits say.** -/
theorem foldl_hexadecimal (n : ℕ) :
    (hexadecimal n).foldl (fun m b => 16 * m + ((hexDigit b).getD 0).toNat) 0 = n := by
  have hvalue : ∀ {d : ℕ}, d < 16 →
      ((hexDigit (UInt8.ofNat d.digitChar.toNat)).getD 0).toNat = d := by
    intro d hd
    rw [hexDigit_digitChar hd, Option.getD_some, UInt8.toNat_ofNat', Nat.mod_eq_of_lt (by omega)]
  induction n using Nat.strong_induction_on with
  | _ n ih =>
    rcases Nat.lt_or_ge n 16 with hn | hn
    · rw [hexadecimal_of_lt hn, List.foldl_cons, List.foldl_nil, hvalue hn, mul_zero, zero_add]
    · rw [hexadecimal_of_le hn, List.foldl_append, ih (n / 16) (by omega), List.foldl_cons,
        List.foldl_nil, hvalue (Nat.mod_lt n (by omega))]
      exact Nat.div_add_mod n 16

end Text
