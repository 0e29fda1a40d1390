import Mathlib.Data.Fintype.BigOperators
import Mathlib.Data.List.Basic
import Mathlib.Data.List.Infix

/-!
# Self-delimiting codes

A reader that takes one value off the front of its input, and the writer it
inverts. `Codec` asks for both directions: what was written is read back whatever
stands behind it (`Codec.decode_encode`), and what is read is what was written
(`Codec.decode_eq_some`). The second one is what makes the code *prefix free*
(`Codec.eq_of_isPrefix`): a cut encoding starves the reader
(`Codec.decode_of_isPrefix`).

A file of such values has no framing, so all that can be said of it is how far
the reader comes: `Codec.Reads inp l q` says that it reads the values `l` and then
stops before `q`. It stops in one way only (`Codec.Reads.unique`).

* `Codec.reads_take` – of a file of values cut at any place, the reader finds
  the values that are still there in full.
* `Codec.reads_torn_iff` – when values are appended behind a cut one, they are
  found only if moving the cut piece from their front to their end makes no
  difference, and no value stands at the front of what is then left over.

To see that a reader has found one value and no other, the value has to be one
that stands nowhere else in the file. There are such words, of two letters and of
a length that does not depend on what is in the file but on its length only
(`exists_word_not_infix`), and the letters around a word say where it stands
(`length_eq_of_word`).
-/

/-- A writer of values and the reader that inverts it. -/
structure Codec (α β : Type*) where
  /-- The values that can be written. -/
  Valid : α → Prop
  /-- Write a value. -/
  encode : α → List β
  /-- Read a value off the front of the input; the rest is handed on. -/
  decode : List β → Option (α × List β)
  /-- What was written is read back. -/
  decode_encode : ∀ {x}, Valid x → ∀ rest, decode (encode x ++ rest) = some (x, rest)
  /-- What is read was written. -/
  decode_eq_some : ∀ {inp x rest}, decode inp = some (x, rest) → inp = encode x ++ rest ∧ Valid x
  /-- There is nothing to read in an empty input. -/
  decode_nil : decode [] = none

namespace Codec

variable {α β : Type*} (C : Codec α β)

/-! ### One value -/

/-- The reader fails when no value stands at the front. -/
theorem decode_eq_none_iff {inp : List β} :
    C.decode inp = none ↔ ∀ x, C.Valid x → ¬C.encode x <+: inp := by
  constructor
  · rintro h x hx ⟨rest, rfl⟩
    rw [C.decode_encode hx] at h
    exact absurd h (by simp)
  · intro h
    rcases hd : C.decode inp with _ | ⟨x, rest⟩
    · rfl
    · obtain ⟨rfl, hx⟩ := C.decode_eq_some hd
      exact absurd (List.prefix_append _ _) (h x hx)

/-- **The code is prefix free.** -/
theorem eq_of_isPrefix {x y : α} (hx : C.Valid x) (hy : C.Valid y)
    (h : C.encode x <+: C.encode y) : x = y := by
  obtain ⟨rest, hrest⟩ := h
  have hread : C.decode (C.encode y ++ []) = some (x, rest) := by
    rw [List.append_nil, ← hrest]
    exact C.decode_encode hx rest
  rw [C.decode_encode hy] at hread
  exact congrArg Prod.fst (Option.some.inj hread).symm

/-- **A cut encoding starves the reader.** -/
theorem decode_of_isPrefix {y : α} (hy : C.Valid y) {p : List β} (h : p <+: C.encode y)
    (hne : p ≠ C.encode y) : C.decode p = none := by
  refine C.decode_eq_none_iff.mpr fun x hx hxp => hne ?_
  obtain rfl := C.eq_of_isPrefix hx hy (hxp.trans h)
  exact h.eq_of_length_le hxp.length_le

/-! ### A file of values -/

/-- The values one after the other. -/
def encodeAll (l : List α) : List β := l.flatMap C.encode

@[simp] theorem encodeAll_nil : C.encodeAll [] = [] := rfl

theorem encodeAll_cons (x : α) (l : List α) :
    C.encodeAll (x :: l) = C.encode x ++ C.encodeAll l := rfl

theorem encodeAll_append (l l' : List α) :
    C.encodeAll (l ++ l') = C.encodeAll l ++ C.encodeAll l' :=
  List.flatMap_append

/-- The reader reads the values `l` off the input and stops before `q`. -/
structure Reads (inp : List β) (l : List α) (q : List β) : Prop where
  /-- What was read stood at the front. -/
  input : inp = C.encodeAll l ++ q
  /-- The values are ones that can be written. -/
  valid : ∀ x ∈ l, C.Valid x
  /-- There is no further value. -/
  stop : C.decode q = none

variable {C}

theorem reads_nil_iff {inp : List β} {q : List β} :
    C.Reads inp [] q ↔ inp = q ∧ C.decode q = none :=
  ⟨fun h => ⟨h.input, h.stop⟩, fun h => ⟨h.1, by simp, h.2⟩⟩

theorem reads_cons_iff {inp q : List β} {x : α} {l : List α} :
    C.Reads inp (x :: l) q ↔ ∃ rest, C.decode inp = some (x, rest) ∧ C.Reads rest l q := by
  constructor
  · rintro ⟨hinp, hvalid, hstop⟩
    refine ⟨C.encodeAll l ++ q, ?_, rfl, fun y hy => hvalid y (List.mem_cons_of_mem x hy), hstop⟩
    rw [hinp, encodeAll_cons, List.append_assoc]
    exact C.decode_encode (hvalid x List.mem_cons_self) _
  · rintro ⟨rest, hread, hrest⟩
    obtain ⟨rfl, hx⟩ := C.decode_eq_some hread
    refine ⟨?_, List.forall_mem_cons.mpr ⟨hx, hrest.valid⟩, hrest.stop⟩
    rw [hrest.input, encodeAll_cons, List.append_assoc]

/-- **There is one way to read an input.** -/
theorem Reads.unique {inp : List β} {l l' : List α} {q q' : List β} (h : C.Reads inp l q)
    (h' : C.Reads inp l' q') : l = l' ∧ q = q' := by
  induction l generalizing inp l' with
  | nil =>
    obtain ⟨rfl, hstop⟩ := reads_nil_iff.mp h
    cases l' with
    | nil => exact ⟨rfl, (reads_nil_iff.mp h').1⟩
    | cons x l' =>
      obtain ⟨rest, hread, -⟩ := reads_cons_iff.mp h'
      exact absurd (hstop.symm.trans hread) (by simp)
  | cons x l ih =>
    obtain ⟨rest, hread, hrest⟩ := reads_cons_iff.mp h
    cases l' with
    | nil =>
      obtain ⟨rfl, hstop⟩ := reads_nil_iff.mp h'
      exact absurd (hstop.symm.trans hread) (by simp)
    | cons y l' =>
      obtain ⟨rest', hread', hrest'⟩ := reads_cons_iff.mp h'
      obtain ⟨rfl, rfl⟩ : x = y ∧ rest = rest' := by simpa [hread] using hread'
      obtain ⟨rfl, hq⟩ := ih hrest hrest'
      exact ⟨rfl, hq⟩

/-- Values in front of an input are read before it. -/
theorem reads_append_iff {l l' : List α} (hl : ∀ x ∈ l, C.Valid x) {inp q : List β} :
    C.Reads (C.encodeAll l ++ inp) (l ++ l') q ↔ C.Reads inp l' q := by
  constructor
  · rintro ⟨hinp, hvalid, hstop⟩
    rw [encodeAll_append, List.append_assoc] at hinp
    exact ⟨List.append_cancel_left hinp, fun x hx => hvalid x (List.mem_append_right l hx), hstop⟩
  · rintro ⟨rfl, hvalid, hstop⟩
    refine ⟨?_, List.forall_mem_append.mpr ⟨hl, hvalid⟩, hstop⟩
    rw [encodeAll_append, List.append_assoc]

/-- **A file of values is read in full.** -/
theorem reads_encodeAll {l : List α} (hl : ∀ x ∈ l, C.Valid x) : C.Reads (C.encodeAll l) l [] :=
  ⟨(List.append_nil _).symm, hl, C.decode_nil⟩

/-! ### A file that was cut -/

/-- **A file cut at any place** gives the values that are there in full: the
longest of the beginnings of `l` that fit. -/
theorem reads_take {l : List α} (hl : ∀ x ∈ l, C.Valid x) (k : ℕ) :
    ∃ l₁ q, C.Reads ((C.encodeAll l).take k) l₁ q ∧ l₁ <+: l ∧
      ∀ l₂, l₂ <+: l → (C.encodeAll l₂).length ≤ k → l₂ <+: l₁ := by
  induction l generalizing k with
  | nil => exact ⟨[], [], by simpa using reads_encodeAll hl, List.nil_prefix, fun l₂ h _ => h⟩
  | cons x l ih =>
    obtain ⟨hx, hl'⟩ := List.forall_mem_cons.mp hl
    rw [encodeAll_cons]
    rcases Nat.lt_or_ge k (C.encode x).length with hlt | hge
    · -- the cut goes through the first value
      refine ⟨[], (C.encode x).take k, ?_, List.nil_prefix, fun l₂ hpre hle => ?_⟩
      · rw [List.take_append_of_le_length hlt.le, reads_nil_iff]
        refine ⟨rfl, C.decode_of_isPrefix hx (List.take_prefix _ _) fun he => ?_⟩
        have hlen := congrArg List.length he
        rw [List.length_take] at hlen
        omega
      · cases l₂ with
        | nil => exact List.nil_prefix
        | cons y l₂ =>
          obtain ⟨rfl, -⟩ := List.cons_prefix_cons.mp hpre
          rw [encodeAll_cons, List.length_append] at hle
          omega
    · obtain ⟨l₁, q, hreads, hpre, hmax⟩ := ih hl' (k - (C.encode x).length)
      refine ⟨x :: l₁, q, ?_, List.cons_prefix_cons.mpr ⟨rfl, hpre⟩, fun l₂ hpre₂ hle => ?_⟩
      · rw [List.take_append, List.take_of_length_le hge]
        exact reads_cons_iff.mpr ⟨_, C.decode_encode hx _, hreads⟩
      · cases l₂ with
        | nil => exact List.nil_prefix
        | cons y l₂ =>
          obtain ⟨rfl, hrest⟩ := List.cons_prefix_cons.mp hpre₂
          rw [encodeAll_cons, List.length_append] at hle
          exact List.cons_prefix_cons.mpr ⟨rfl, hmax l₂ hrest (by omega)⟩

/-! ### Values behind a cut one -/

/-- **Values appended behind a piece that is no value** are all read exactly
when the piece can as well be moved behind them, and no value stands at the front
of what is left over then. -/
theorem reads_torn_iff {l' : List α} (hl' : ∀ x ∈ l', C.Valid x) {p : List β} :
    (∃ q, C.Reads (p ++ C.encodeAll l') l' q) ↔
      ∃ q, p ++ C.encodeAll l' = C.encodeAll l' ++ q ∧ ∀ x, C.Valid x → ¬C.encode x <+: q := by
  constructor
  · rintro ⟨q, h⟩
    exact ⟨q, h.input, C.decode_eq_none_iff.mp h.stop⟩
  · rintro ⟨q, hinp, hstop⟩
    exact ⟨q, hinp, hl', C.decode_eq_none_iff.mpr hstop⟩

end Codec

/-! ### Words that stand in one place -/

section Words

variable {β : Type*}

/-- There are more words of two letters than a short list has. -/
theorem exists_word_notMem {a b : β} (hab : a ≠ b) {n : ℕ} {l : List (List β)}
    (hl : l.length < 2 ^ n) :
    ∃ v : List β, v.length = n ∧ (∀ x ∈ v, x = a ∨ x = b) ∧ v ∉ l := by
  classical
  -- a word is a choice of the letter at each place
  let word : (Fin n → Bool) → List β := fun g => List.ofFn fun i => if g i then a else b
  have hinj : Function.Injective word := by
    intro g g' h
    funext i
    have hi : (if g i then a else b) = if g' i then a else b := congrFun (List.ofFn_injective h) i
    rcases hg : g i with _ | _ <;> rcases hg' : g' i with _ | _
    · rfl
    · simp [hg, hg', hab.symm] at hi
    · simp [hg, hg', hab] at hi
    · rfl
  have hsome : ∃ g, word g ∉ l := by
    by_contra hall
    have hmem : ∀ g ∈ (Finset.univ : Finset (Fin n → Bool)), word g ∈ l.toFinset :=
      fun g _ => List.mem_toFinset.mpr (not_not.mp fun hno => hall ⟨g, hno⟩)
    have hcard := Finset.card_le_card_of_injOn word hmem hinj.injOn
    rw [Finset.card_univ, Fintype.card_fun, Fintype.card_bool, Fintype.card_fin] at hcard
    have hle := List.toFinset_card_le l
    omega
  obtain ⟨g, hg⟩ := hsome
  refine ⟨word g, List.length_ofFn, fun x hx => ?_, hg⟩
  obtain ⟨i, rfl⟩ := List.mem_ofFn.mp hx
  rcases g i with _ | _
  · exact Or.inr rfl
  · exact Or.inl rfl

/-- **A word of two letters that stands nowhere** in a file, and is not one of some
other words either. -/
theorem exists_word_not_infix {a b : β} (hab : a ≠ b) {n : ℕ} {l : List β} {w : List (List β)}
    (hl : l.length + w.length + 1 < 2 ^ n) :
    ∃ v : List β, v.length = n ∧ (∀ x ∈ v, x = a ∨ x = b) ∧ ¬v <:+: l ∧ v ∉ w := by
  -- the words of this length that stand in the file, one for each place
  obtain ⟨v, hlen, hletters, hv⟩ := exists_word_notMem hab (n := n)
    (l := (List.range (l.length + 1)).map (fun i => (l.drop i).take n) ++ w)
    (by rw [List.length_append, List.length_map, List.length_range]; omega)
  rw [List.mem_append, not_or] at hv
  refine ⟨v, hlen, hletters, ?_, hv.2⟩
  rintro ⟨s, t, rfl⟩
  refine hv.1 (List.mem_map.mpr ⟨s.length, List.mem_range.mpr ?_, ?_⟩)
  · rw [List.length_append, List.length_append]
    omega
  · rw [List.append_assoc, List.drop_left, ← hlen, List.take_left]

/-- A letter that stands inside a word is one of it. -/
theorem mem_of_append_eq {v s p q : List β} {m : β} (h : v ++ s = p ++ m :: q)
    (hlt : p.length < v.length) : m ∈ v := by
  have hget : (v ++ s)[p.length]? = some m := by
    rw [h]
    simp
  rw [List.getElem?_append_left hlt] at hget
  exact List.mem_of_getElem? hget

/-- **A word stands in one place** of a file when it does not stand in the part before
that place, when the letters on its two sides are none of its own, and when what is
behind it is shorter than the word. -/
theorem length_eq_of_word {v h z s t : List β} {m n : β} (hm : m ∉ v) (hn : n ∉ v)
    (hwithin : ¬v <:+: h ++ [m]) (hz : z.length < v.length)
    (heq : s ++ (v ++ t) = h ++ m :: (v ++ n :: z)) : s.length = h.length + 1 := by
  rcases List.append_eq_append_iff.mp heq with ⟨p, rfl, hp⟩ | ⟨p, rfl, hp⟩
  · -- it would begin before the letter in front of it
    rcases Nat.lt_or_ge p.length v.length with hlt | hge
    · exact absurd (mem_of_append_eq hp hlt) hm
    · have hpre : v <+: p := List.prefix_of_prefix_length_le (List.prefix_append v t)
        (hp ▸ List.prefix_append p _) hge
      obtain ⟨p', rfl⟩ := hpre
      exact absurd ⟨s, p' ++ [m], by simp⟩ hwithin
  · cases p with
    | nil =>
      have hpos : ([] : List β).length < v.length := by
        rw [List.length_nil]
        omega
      exact absurd (mem_of_append_eq hp.symm hpos) hm
    | cons m₁ p =>
      obtain ⟨rfl, hrest⟩ : m = m₁ ∧ v ++ n :: z = p ++ (v ++ t) := List.cons.inj hp
      rcases List.eq_nil_or_concat p with rfl | ⟨p', x, hx⟩
      · rw [List.length_append, List.length_singleton]
      · -- it would end behind the letter that follows it
        have hlen := congrArg List.length hrest
        have hpos : p.length ≠ 0 := by simp [hx]
        simp only [List.length_append, List.length_cons] at hlen
        have hpre : p <+: v := List.prefix_of_prefix_length_le (hrest ▸ List.prefix_append p _)
          (List.prefix_append v _) (by omega)
        obtain ⟨v', rfl⟩ := hpre
        rw [List.append_assoc] at hrest
        have hback : p ++ v' ++ t = v' ++ n :: z := (List.append_cancel_left hrest).symm
        refine absurd (mem_of_append_eq hback ?_) hn
        rw [List.length_append]
        omega

end Words
