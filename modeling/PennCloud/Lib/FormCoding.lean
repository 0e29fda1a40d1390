import PennCloud.Lib.Text

/-!
# The encoding of forms

A form is sent as `key=value` pairs with `&` between them
(`FormCoding.formText`). In a value a blank is written as `+`, and a character that
might be mistaken for structure as `%XX` with its two hexadecimal digits.
`FormCoding.Encodes` is that a text is written so; it is a relation, since the digits
may be of either case and nobody is kept from writing more characters with digits than
has to.

A reader undoes this when it takes the three ways of writing a character back
(`FormCoding.Decoder`), whatever it does with other texts:
`FormCoding.Encodes.decodes`.
-/

namespace FormCoding

open Wire Text

/-! ### Values -/

/-- The characters that are written as they are: letters, digits and `*-._`. -/
def isPlain (c : UInt8) : Bool :=
  (48 ≤ c && c ≤ 57) || (65 ≤ c && c ≤ 90) || (97 ≤ c && c ≤ 122) || c == 42 || c == 45 ||
    c == 46 || c == 95

/-- **The value `v` is written as `e`**, with the characters of `plain` as they are, if one
likes. -/
inductive Encodes (plain : UInt8 → Prop) : Bytes → Bytes → Prop
  /-- Nothing. -/
  | nil : Encodes plain [] []
  /-- A character as it is. -/
  | keep {c : UInt8} {v e : Bytes} (hc : plain c) (h : Encodes plain v e) :
    Encodes plain (c :: v) (c :: e)
  /-- A blank. -/
  | space {v e : Bytes} (h : Encodes plain v e) : Encodes plain (32 :: v) (43 :: e)
  /-- A character with its digits. -/
  | escape {c x y : UInt8} {v e : Bytes} (hx : hexDigit x = some (c / 16))
    (hy : hexDigit y = some (c % 16)) (h : Encodes plain v e) :
    Encodes plain (c :: v) (37 :: x :: y :: e)

/-- **A reader of encoded values**: `D e v` says that it makes `v` of `e`. -/
structure Decoder (D : Bytes → Bytes → Prop) : Prop where
  /-- Nothing. -/
  nil : D [] []
  /-- A character that is neither a plus nor a percent sign. -/
  keep : ∀ {c : UInt8} {e v : Bytes}, c ≠ 37 → c ≠ 43 → D e v → D (c :: e) (c :: v)
  /-- A plus. -/
  space : ∀ {e v : Bytes}, D e v → D (43 :: e) (32 :: v)
  /-- A percent sign with two digits. -/
  escape : ∀ {x y hi lo : UInt8} {e v : Bytes}, hexDigit x = some hi → hexDigit y = some lo →
    D e v → D (37 :: x :: y :: e) ((16 * hi + lo) :: v)

/-- A byte is put together from its digits. -/
theorem sixteen_mul_add (c : UInt8) : 16 * (c / 16) + c % 16 = c := by
  rw [← UInt8.toNat_inj]
  have hlt := c.toNat_lt
  simp only [UInt8.toNat_add, UInt8.toNat_mul, UInt8.toNat_div, UInt8.toNat_mod]
  have h16 : (16 : UInt8).toNat = 16 := rfl
  rw [h16]
  omega

namespace Encodes

variable {plain plain' : UInt8 → Prop} {v e v' e' : Bytes}

/-- **What is written is read.** -/
theorem decodes {D : Bytes → Bytes → Prop} (hD : Decoder D)
    (hplain : ∀ c, plain c → c ≠ 37 ∧ c ≠ 43) (h : Encodes plain v e) : D e v := by
  induction h with
  | nil => exact hD.nil
  | keep hc _ ih => exact hD.keep (hplain _ hc).1 (hplain _ hc).2 ih
  | space _ ih => exact hD.space ih
  | @escape c x y v e hx hy _ ih =>
    have hread := hD.escape hx hy ih
    rwa [sixteen_mul_add] at hread

theorem mono (h : Encodes plain v e) (hplain : ∀ c, plain c → plain' c) : Encodes plain' v e := by
  induction h with
  | nil => exact .nil
  | keep hc _ ih => exact .keep (hplain _ hc) ih
  | space _ ih => exact .space ih
  | escape hx hy _ ih => exact .escape hx hy ih

theorem append (h : Encodes plain v e) (h' : Encodes plain v' e') :
    Encodes plain (v ++ v') (e ++ e') := by
  induction h with
  | nil => exact h'
  | keep hc _ ih => exact .keep hc ih
  | space _ ih => exact .space ih
  | escape hx hy _ ih => exact .escape hx hy ih

/-- A text of plain characters is written as it is. -/
theorem of_forall (h : ∀ c ∈ v, plain c) : Encodes plain v v := by
  induction v with
  | nil => exact .nil
  | cons c v ih =>
    exact .keep (h c List.mem_cons_self) (ih fun d hd => h d (List.mem_cons_of_mem c hd))

/-- The characters of what is written. -/
theorem mem {c : UInt8} (h : Encodes plain v e) (hc : c ∈ e) :
    plain c ∨ c = 43 ∨ c = 37 ∨ (hexDigit c).isSome = true := by
  induction h with
  | nil => exact absurd hc List.not_mem_nil
  | keep hd _ ih =>
    rcases List.mem_cons.mp hc with rfl | hc
    · exact Or.inl hd
    · exact ih hc
  | space _ ih =>
    rcases List.mem_cons.mp hc with rfl | hc
    · exact Or.inr (Or.inl rfl)
    · exact ih hc
  | escape hx hy _ ih =>
    rcases List.mem_cons.mp hc with rfl | hc
    · exact Or.inr (Or.inr (Or.inl rfl))
    rcases List.mem_cons.mp hc with rfl | hc
    · exact Or.inr (Or.inr (Or.inr (by rw [hx]; rfl)))
    rcases List.mem_cons.mp hc with rfl | hc
    · exact Or.inr (Or.inr (Or.inr (by rw [hy]; rfl)))
    · exact ih hc

end Encodes

/-! ### Forms -/

/-- The text of a field. -/
def fieldText (f : Bytes × Bytes) : Bytes := f.1 ++ 61 :: f.2

/-- The text of a form. -/
def formText (fields : List (Bytes × Bytes)) : Bytes := [38].intercalate (fields.map fieldText)

/-- A key that is written as it is. -/
def PlainKey (key : Bytes) : Prop := ∀ c ∈ key, isPlain c = true

instance : DecidablePred PlainKey := fun _ => List.decidableBAll _ _

/-- The field `f` with its value encoded. -/
def EncodesField (f coded : Bytes × Bytes) : Prop :=
  coded.1 = f.1 ∧ Encodes (fun c => isPlain c = true) f.2 coded.2

/-- **A form that is sent**: the text of the fields with their values encoded. -/
def EncodesForm (fields : List (Bytes × Bytes)) (text : Bytes) : Prop :=
  ∃ coded, List.Forall₂ EncodesField fields coded ∧ text = formText coded

theorem formText_cons_cons (f g : Bytes × Bytes) (fields : List (Bytes × Bytes)) :
    formText (f :: g :: fields) = fieldText f ++ 38 :: formText (g :: fields) := by
  rw [formText, formText, List.map_cons, List.map_cons, List.intercalate_cons_cons,
    List.append_assoc]
  rfl

/-- No field is cut where fields are joined. -/
theorem notMem_fieldText {fields : List (Bytes × Bytes)} (h : ∀ f ∈ fields, 38 ∉ f.1 ∧ 38 ∉ f.2) :
    ∀ p ∈ fields.map fieldText, 38 ∉ p := by
  intro p hp
  obtain ⟨f, hf, rfl⟩ := List.mem_map.mp hp
  rw [fieldText, List.mem_append, List.mem_cons]
  rintro (hkey | hsep | hvalue)
  · exact (h f hf).1 hkey
  · exact absurd hsep (by decide)
  · exact (h f hf).2 hvalue

theorem formText_singleton (f : Bytes × Bytes) : formText [f] = fieldText f :=
  List.intercalate_singleton

/-- There is no separator in what is written. -/
theorem notMem_of_encodes {v e : Bytes} (h : Encodes (fun c => isPlain c = true) v e) {c : UInt8}
    (hc : isPlain c = false) (hplus : c ≠ 43) (hpercent : c ≠ 37) (hdigit : hexDigit c = none) :
    c ∉ e := by
  intro hmem
  rcases h.mem hmem with h | h | h | h
  · rw [hc] at h
    exact absurd h Bool.false_ne_true
  · exact hplus h
  · exact hpercent h
  · rw [hdigit] at h
    exact absurd h Bool.false_ne_true

/-- A key that is written as it is has no separator. -/
theorem notMem_of_plainKey {key : Bytes} (h : PlainKey key) {c : UInt8} (hc : isPlain c = false) :
    c ∉ key := by
  intro hmem
  rw [h c hmem] at hc
  exact Bool.true_eq_false.mp hc

/-- No separator is left in the fields that are sent. -/
theorem forall_coded {fields coded : List (Bytes × Bytes)}
    (hkeys : ∀ f ∈ fields, PlainKey f.1) (h : List.Forall₂ EncodesField fields coded) :
    ∀ g ∈ coded, (61 ∉ g.1 ∧ 38 ∉ g.1) ∧ 38 ∉ g.2 := by
  induction h with
  | nil => exact fun g hg => absurd hg List.not_mem_nil
  | @cons f g fields coded hf _ ih =>
    have hkey := hkeys f List.mem_cons_self
    refine List.forall_mem_cons.mpr ⟨⟨?_, ?_⟩, ih fun f hf => hkeys f (List.mem_cons_of_mem _ hf)⟩
    · rw [hf.1]
      exact ⟨notMem_of_plainKey hkey (by decide), notMem_of_plainKey hkey (by decide)⟩
    · exact notMem_of_encodes hf.2 (by decide) (by decide) (by decide) (by decide)

/-- The whole text is that of the fields, encoded with the separators left as they are. -/
theorem EncodesForm.encodes {fields : List (Bytes × Bytes)} {text : Bytes}
    (h : EncodesForm fields text) (hkeys : ∀ f ∈ fields, PlainKey f.1) :
    Encodes (fun c => isPlain c = true ∨ c = 38 ∨ c = 61) (formText fields) text := by
  obtain ⟨coded, hall, rfl⟩ := h
  have hfield : ∀ {f coded : Bytes × Bytes}, PlainKey f.1 → EncodesField f coded →
      Encodes (fun c => isPlain c = true ∨ c = 38 ∨ c = 61) (fieldText f) (fieldText coded) := by
    rintro f coded hkey ⟨hkey', hvalue⟩
    rw [fieldText, fieldText, hkey']
    exact (Encodes.of_forall fun c hc => Or.inl (hkey c hc)).append
      (.keep (Or.inr (Or.inr rfl)) (hvalue.mono fun c => Or.inl))
  induction hall with
  | nil => exact .nil
  | @cons f g fields' coded hf hrest ih =>
    have hhead := hfield (hkeys f List.mem_cons_self) hf
    cases hrest with
    | nil => rwa [formText_singleton, formText_singleton]
    | cons _ _ =>
      rw [formText_cons_cons, formText_cons_cons]
      exact hhead.append (.keep (Or.inr (Or.inl rfl))
        (ih fun f hf => hkeys f (List.mem_cons_of_mem _ hf)))

end FormCoding
