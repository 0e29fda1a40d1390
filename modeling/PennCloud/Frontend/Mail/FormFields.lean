import PennCloud.Lib.FormCoding
import PennCloud.Frontend.Mail.Service

/-!
# The fields of a mail form

`sendEmail` cuts the form at its separators first and decodes the values afterwards, so
that a character that was encoded is never taken for a separator.
`PennCloud.formFields_decoded` says that this undoes the encoding of forms, for all
fields.
-/

namespace PennCloud

open Wire Text FormCoding

/-! ### Decoding -/

/-- A digit is neither a blank nor a sign. -/
theorem isSpace_of_hexDigit {x d : UInt8} (h : hexDigit x = some d) :
    isSpace x = false ∧ x ≠ 43 ∧ x ≠ 45 := by
  have hrange : 48 ≤ x.toNat := by
    rw [hexDigit] at h
    split_ifs at h with h1 h2 h3
    all_goals
      simp only [Bool.and_eq_true, decide_eq_true_eq, UInt8.le_iff_toNat_le,
        UInt8.reduceToNat] at *
      omega
  have hne : ∀ c : UInt8, c.toNat < 48 → x ≠ c := by
    rintro c hc rfl
    omega
  refine ⟨?_, hne 43 (by decide), hne 45 (by decide)⟩
  rw [isSpace, Bool.or_eq_false_iff, Bool.and_eq_false_iff]
  refine ⟨beq_eq_false_iff_ne.mpr (hne 32 (by decide)), Or.inr (decide_eq_false fun hle => ?_)⟩
  have hle := UInt8.le_iff_toNat_le.mp hle
  simp only [UInt8.reduceToNat] at hle
  omega

theorem readHex_of_digits {x y hi lo : UInt8} (hx : hexDigit x = some hi)
    (hy : hexDigit y = some lo) : readHex x y = some (16 * hi + lo) := by
  obtain ⟨hspace, hplus, hminus⟩ := isSpace_of_hexDigit hx
  rw [readHex, hspace, if_neg Bool.false_ne_true, if_neg hplus, if_neg hminus, hx, hy]

theorem urlDecode_cons {c : UInt8} (h : c ≠ 37) (h' : c ≠ 43) (src : Bytes) :
    urlDecode (c :: src) = c :: urlDecode src := by
  rw [urlDecode]
  · exact fun a b src' heq => absurd heq h
  · exact h'

/-- **`urlDecode` reads what is encoded.** -/
theorem decoder_urlDecode : Decoder fun e v => urlDecode e = v where
  nil := rfl
  keep := by
    rintro c e v h h' rfl
    exact urlDecode_cons h h' e
  space := by
    rintro e v rfl
    rfl
  escape := by
    rintro x y hi lo e v hx hy rfl
    rw [urlDecode, readHex_of_digits hx hy]
    rfl

theorem urlDecode_of_encodes {v e : Bytes} (h : Encodes (fun c => isPlain c = true) v e) :
    urlDecode e = v := by
  refine Encodes.decodes (D := fun e v => urlDecode e = v) decoder_urlDecode
    (fun c hc => ⟨?_, ?_⟩) h
  · rintro rfl
    exact absurd hc (by decide)
  · rintro rfl
    exact absurd hc (by decide)

/-! ### Cutting -/

/-- What `parseQueryString` assigns, piece by piece: a piece without an equals sign
becomes part of the next key. -/
def assignments : Bytes → List Bytes → List (Bytes × Bytes)
  | _, [] => []
  | pending, piece :: pieces =>
    match cut (ascii "=") piece with
    | none => assignments (pending ++ piece ++ [38]) pieces
    | some (key, value) => (pending ++ key, value) :: assignments [] pieces

theorem cut_eq_none_of_notMem {c : UInt8} {s : Bytes} (h : c ∉ s) : cut [c] s = none := by
  rw [Option.eq_none_iff_forall_not_mem]
  intro r hr
  refine absurd (isSome_cut.mp (Option.isSome_iff_exists.mpr ⟨r, hr⟩)) ?_
  exact not_infix_of_notMem (List.mem_singleton.mpr rfl) h

theorem notMem_of_cut_eq_none {c : UInt8} {s : Bytes} (h : cut [c] s = none) : c ∉ s := by
  intro hmem
  obtain ⟨a, b, rfl⟩ := List.append_of_mem hmem
  have hsome : (cut [c] (a ++ c :: b)).isSome = true := isSome_cut.mpr ⟨a, b, by simp⟩
  rw [h] at hsome
  exact absurd hsome Bool.false_ne_true

/-- The loop where no key ends. -/
theorem parseQueryStringAux_of_notMem {s : Bytes} (h : 61 ∉ s) (fuel : ℕ) :
    parseQueryStringAux fuel s = [] := by
  have hnone : cut (ascii "=") s = none := cut_eq_none_of_notMem h
  rcases fuel with _ | fuel
  · rfl
  · rw [parseQueryStringAux]
    simp only [hnone]

/-- The loop on pieces with ampersands between them, behind the beginning of a key. -/
theorem parseQueryStringAux_eq {pieces : List Bytes} (hpieces : ∀ p ∈ pieces, 38 ∉ p)
    {pending : Bytes} (hpending : 61 ∉ pending) {fuel : ℕ}
    (hfuel : (pending ++ [38].intercalate pieces).length ≤ fuel) :
    parseQueryStringAux fuel (pending ++ [38].intercalate pieces) =
      assignments pending pieces := by
  have heq : ascii "=" = [61] := rfl
  have hamp : ascii "&" = [38] := rfl
  induction pieces generalizing pending fuel with
  | nil => exact parseQueryStringAux_of_notMem (by simpa [List.intercalate] using hpending) fuel
  | cons piece pieces ih =>
    have hpiece := hpieces piece List.mem_cons_self
    have hpieces' := fun p hp => hpieces p (List.mem_cons_of_mem piece hp)
    obtain ⟨rest, htext, hrest⟩ := intercalate_cons_cases 38 piece pieces
    rw [htext] at hfuel ⊢
    rcases hcut : cut (ascii "=") piece with _ | ⟨key, value⟩
    · have hnot : 61 ∉ piece := notMem_of_cut_eq_none hcut
      simp only [assignments, hcut]
      rcases hrest with ⟨rfl, rfl⟩ | ⟨hne, rfl⟩
      · exact parseQueryStringAux_of_notMem (by simp [hpending, hnot]) fuel
      · have hsame : pending ++ (piece ++ 38 :: [38].intercalate pieces) =
            pending ++ piece ++ [38] ++ [38].intercalate pieces := by simp
        rw [hsame] at hfuel ⊢
        exact ih hpieces' (by simp [hpending, hnot]) hfuel
    · have hwhole : cut (ascii "=") (pending ++ (piece ++ rest)) =
          some (pending ++ key, value ++ rest) := by
        rw [heq, cut_append_of_notMem hpending, ← heq, cut_append hcut]
        rfl
      have hvalue : 38 ∉ value := by
        rw [eq_append_of_cut hcut] at hpiece
        exact fun hmem => hpiece (List.mem_append_right _ hmem)
      obtain ⟨fuel, rfl⟩ : ∃ m, fuel = m + 1 := by
        refine Nat.exists_eq_add_one.mpr ?_
        rw [eq_append_of_cut hcut, heq] at hfuel
        simp only [List.length_append, List.length_singleton] at hfuel
        omega
      rw [parseQueryStringAux]
      simp only [hwhole, assignments, hcut]
      rcases hrest with ⟨rfl, rfl⟩ | ⟨hne, rfl⟩
      · rw [List.append_nil, hamp, cut_eq_none_of_notMem hvalue]
        rfl
      · have hnext : cut (ascii "&") (value ++ 38 :: [38].intercalate pieces) =
            some (value, [38].intercalate pieces) :=
          cut_of_firstBehind (firstBehind_of_notMem hvalue) _
        have hfuel' : ([] ++ [38].intercalate pieces).length ≤ fuel := by
          simp only [List.length_append, List.length_cons] at hfuel
          rw [List.nil_append]
          omega
        have hmore := ih hpieces' List.not_mem_nil hfuel'
        rw [List.nil_append] at hmore
        simp only [hnext, hmore]

/-- **`parseQueryString` goes through the pieces between the ampersands.** -/
theorem parseQueryString_eq (query : Bytes) :
    parseQueryString query = assignments [] (query.splitOn 38) := by
  have hall : ∀ p ∈ query.splitOn 38, 38 ∉ p := fun p hp => notMem_of_mem_splitOn hp
  have h := @parseQueryStringAux_eq (query.splitOn 38) hall [] List.not_mem_nil query.length
    (by rw [List.nil_append, List.intercalate_splitOn])
  rwa [List.nil_append, List.intercalate_splitOn] at h

/-- After a piece with an equals sign it begins anew. -/
theorem assignments_append {last : Bytes} (hlast : 61 ∈ last) (pending : Bytes)
    (pieces more : List Bytes) :
    assignments pending (pieces ++ last :: more) =
      assignments pending (pieces ++ [last]) ++ assignments [] more := by
  induction pieces generalizing pending with
  | nil =>
    rcases hcut : cut (ascii "=") last with _ | ⟨key, value⟩
    · exact absurd hlast (notMem_of_cut_eq_none hcut)
    · simp [assignments, hcut]
  | cons piece pieces ih =>
    rcases hcut : cut (ascii "=") piece with _ | ⟨key, value⟩
    · simp [assignments, hcut, ih]
    · simp [assignments, hcut, ih]

/-- An assignment to a key without an ampersand is a piece of its own. -/
theorem mem_of_mem_assignments {pending key value : Bytes} {pieces : List Bytes}
    (hpending : pending = [] ∨ 38 ∈ pending) (hkey : 38 ∉ key)
    (h : (key, value) ∈ assignments pending pieces) : key ++ 61 :: value ∈ pieces := by
  induction pieces generalizing pending with
  | nil => exact absurd h List.not_mem_nil
  | cons piece pieces ih =>
    rcases hcut : cut (ascii "=") piece with _ | ⟨k, v⟩
    · simp only [assignments, hcut] at h
      exact List.mem_cons_of_mem piece (ih (Or.inr (by simp)) h)
    · simp only [assignments, hcut, List.mem_cons] at h
      rcases h with heq | h
      · obtain ⟨rfl, rfl⟩ := Prod.mk.inj heq
        obtain rfl : pending = [] := by
          refine hpending.resolve_right fun hmem => hkey ?_
          exact List.mem_append_left k hmem
        rw [eq_append_of_cut hcut, List.append_assoc]
        exact List.mem_cons_self
      · exact List.mem_cons_of_mem piece (ih (Or.inl rfl) h)

/-- Pieces that are fields. -/
theorem assignments_fieldText {fields : List (Bytes × Bytes)} (hkeys : ∀ f ∈ fields, 61 ∉ f.1) :
    assignments [] (fields.map fieldText) = fields := by
  induction fields with
  | nil => rfl
  | cons f fields ih =>
    have hcut : cut (ascii "=") (fieldText f) = some (f.1, f.2) :=
      cut_of_firstBehind (firstBehind_of_notMem (hkeys f List.mem_cons_self)) f.2
    rw [List.map_cons]
    simp only [assignments, hcut, List.nil_append]
    rw [ih fun g hg => hkeys g (List.mem_cons_of_mem f hg)]

/-- A form whose keys and values do not contain the separators. -/
theorem parseQueryString_formText {fields : List (Bytes × Bytes)}
    (hkeys : ∀ f ∈ fields, 61 ∉ f.1 ∧ 38 ∉ f.1) (hvalues : ∀ f ∈ fields, 38 ∉ f.2) :
    parseQueryString (formText fields) = fields := by
  rcases eq_or_ne fields [] with rfl | hnil
  · rfl
  · have hpieces : ∀ p ∈ fields.map fieldText, 38 ∉ p :=
      notMem_fieldText fun f hf => ⟨(hkeys f hf).2, hvalues f hf⟩
    rw [parseQueryString_eq, formText,
      List.splitOn_intercalate 38 hpieces (List.map_eq_nil_iff.not.mpr hnil)]
    exact assignments_fieldText fun f hf => (hkeys f hf).1

/-- Cutting first and decoding afterwards gives the fields back, in their order. -/
theorem parseQueryString_encoded {fields : List (Bytes × Bytes)} {text : Bytes}
    (hkeys : ∀ f ∈ fields, PlainKey f.1) (h : EncodesForm fields text) :
    (parseQueryString text).map (Prod.map id urlDecode) = fields := by
  obtain ⟨coded, hall, rfl⟩ := h
  have hcoded := forall_coded hkeys hall
  rw [parseQueryString_formText (fun g hg => (hcoded g hg).1) fun g hg => (hcoded g hg).2]
  refine List.forall₂_eq_eq_eq ▸ (List.forall₂_map_left_iff.mpr (List.Forall₂.flip ?_))
  exact hall.imp fun f g hf => Prod.ext hf.1 (urlDecode_of_encodes hf.2)

/-- What `sendEmail` takes for a field. -/
theorem formField_encoded {fields : List (Bytes × Bytes)} {text : Bytes}
    (hkeys : ∀ f ∈ fields, PlainKey f.1) (hnodup : (fields.map Prod.fst).Nodup)
    (h : EncodesForm fields text) (key : String) :
    formField text key = (fields.lookup (ascii key)).getD [] := by
  rw [formField, ← param_map, parseQueryString_encoded hkeys h, isMapOf_of_nodup hnodup]

/-- **The fields of a mail form arrive as they were given.** -/
theorem formFields_decoded (fields : List (Bytes × Bytes)) (text : Bytes)
    (hkeys : ∀ f ∈ fields, PlainKey f.1) (hnodup : (fields.map Prod.fst).Nodup)
    (h : EncodesForm fields text) :
    IsMapOf ((parseQueryString text).map (Prod.map id urlDecode)) fields ∧
      ∀ key : String, formField text key = (fields.lookup (ascii key)).getD [] :=
  ⟨(parseQueryString_encoded hkeys h).symm ▸ isMapOf_of_nodup hnodup,
    formField_encoded hkeys hnodup h⟩

/-- A form with a separator, a blank, a byte above 127 and nothing in its values. -/
def oddFields : List (Bytes × Bytes) :=
  [(ascii "to", ascii "a&b=c"), (ascii "subject", [32, 255, 43]), (ascii "body", [])]

theorem oddFields_encoded :
    EncodesForm oddFields (ascii "to=a%26b%3dc&subject=+%fF%2B&body=") := by
  refine ⟨[(ascii "to", ascii "a%26b%3dc"), (ascii "subject", ascii "+%fF%2B"),
    (ascii "body", [])], .cons ⟨rfl, ?_⟩ (.cons ⟨rfl, ?_⟩ (.cons ⟨rfl, .nil⟩ .nil)), by decide⟩
  · exact .keep (by decide) (.escape (by decide) (by decide) (.keep (by decide)
      (.escape (by decide) (by decide) (.keep (by decide) .nil))))
  · exact .space (.escape (by decide) (by decide) (.escape (by decide) (by decide) .nil))

theorem oddFields_decoded :
    IsMapOf ((parseQueryString (ascii "to=a%26b%3dc&subject=+%fF%2B&body=")).map
      (Prod.map id urlDecode)) oddFields ∧
    ∀ key : String, formField (ascii "to=a%26b%3dc&subject=+%fF%2B&body=") key =
      (oddFields.lookup (ascii key)).getD [] :=
  formFields_decoded oddFields _ (by decide) (by decide) oddFields_encoded

end PennCloud
