import PennCloud.Lib.FormCoding
import PennCloud.Frontend.Storage.Forms

/-!
# The fields of a storage form

`parseQueryParamsStorage` decodes the form as a whole and cuts it at its separators
afterwards. An ampersand that was encoded, since it belongs to a value, has become a
separator by then: the value ends before it, and what follows is an assignment of its
own. The mail service does it the other way round.

`PennCloud.storageFields_decoded_iff` says that this is the only thing that goes wrong:
the map has the fields that were sent exactly if there is no ampersand in a value.
-/

namespace PennCloud

open Wire Text FormCoding

/-- **`urlDecode2` reads what is encoded.** -/
theorem decoder_urlDecode2 : Decoder fun e v => urlDecode2 e = .ok v where
  nil := rfl
  keep := by
    intro c e v h h' hv
    rw [urlDecode2, hv]
    · rfl
    · exact fun a b s heq => absurd heq h
    · exact h'
  space := by
    intro e v hv
    rw [urlDecode2, hv]
    rfl
  escape := by
    intro x y hi lo e v hx hy hv
    have hread : stoiHex x y = some (16 * hi + lo) := by rw [stoiHex, hx, hy]; rfl
    rw [urlDecode2, hread, hv]
    rfl

/-- The whole form is decoded. -/
theorem urlDecode2_formText {fields : List (Bytes × Bytes)} {text : Bytes}
    (hkeys : ∀ f ∈ fields, PlainKey f.1) (h : EncodesForm fields text) :
    urlDecode2 text = .ok (formText fields) := by
  refine Encodes.decodes (D := fun e v => urlDecode2 e = .ok v) decoder_urlDecode2
    (fun c hc => ⟨?_, ?_⟩) (h.encodes hkeys)
  · rintro rfl
    exact absurd hc (by decide)
  · rintro rfl
    exact absurd hc (by decide)

/-- The fields, if none of them is cut. -/
theorem assignments_formText {fields : List (Bytes × Bytes)} (hkeys : ∀ f ∈ fields, PlainKey f.1)
    (hvalues : ∀ f ∈ fields, 38 ∉ f.2) :
    (getlines 38 (formText fields)).filterMap (cut (ascii "=")) = fields := by
  rcases eq_or_ne fields [] with rfl | hnil
  · rfl
  · have hpieces : ∀ p ∈ fields.map fieldText, 38 ∉ p := notMem_fieldText fun f hf =>
      ⟨notMem_of_plainKey (hkeys f hf) (by decide), hvalues f hf⟩
    have hne : ∀ p ∈ fields.map fieldText, p ≠ [] := by
      intro p hp
      obtain ⟨f, -, rfl⟩ := List.mem_map.mp hp
      exact List.append_ne_nil_of_right_ne_nil _ (List.cons_ne_nil _ _)
    rw [formText, getlines_intercalate hpieces hne (List.map_eq_nil_iff.not.mpr hnil),
      List.filterMap_map]
    refine (List.filterMap_congr fun f hf => ?_).trans List.filterMap_some
    exact cut_of_firstBehind (firstBehind_of_notMem
      (notMem_of_plainKey (hkeys f hf) (by decide))) f.2

/-- **The fields of a storage form arrive as they were given exactly if no value has an
ampersand in it**; the form is decoded in any case. -/
theorem storageFields_decoded_iff (fields : List (Bytes × Bytes)) (text : Bytes)
    (hkeys : ∀ f ∈ fields, PlainKey f.1) (hnodup : (fields.map Prod.fst).Nodup)
    (h : EncodesForm fields text) :
    ∃ params, parseQueryParamsStorage text = .ok params ∧
      (IsMapOf params fields ↔ ∀ f ∈ fields, 38 ∉ f.2) := by
  refine ⟨(getlines 38 (formText fields)).filterMap (cut (ascii "=")), ?_, ?_, ?_⟩
  · rw [parseQueryParamsStorage, urlDecode2_formText hkeys h]
    rfl
  · intro hmap f hf
    exact notMem_of_assignment (mem_of_param ((hmap f.1).trans (lookup_of_mem hnodup hf)))
  · intro hvalues
    rw [assignments_formText hkeys hvalues]
    exact isMapOf_of_nodup hnodup

/-- A new name with an ampersand, beside the folder that is renamed. -/
def renameFields : List (Bytes × Bytes) :=
  [(ascii "folder", ascii "work"), (ascii "newname", ascii "a&folder=b")]

theorem renameFields_encoded :
    EncodesForm renameFields (ascii "folder=work&newname=a%26folder%3Db") := by
  refine ⟨[(ascii "folder", ascii "work"), (ascii "newname", ascii "a%26folder%3Db")],
    .cons ⟨rfl, .of_forall (by decide +kernel)⟩ (.cons ⟨rfl, ?_⟩ .nil), by decide⟩
  have hword : Encodes (fun c => isPlain c = true) (ascii "folder") (ascii "folder") :=
    .of_forall (by decide +kernel)
  exact .keep (by decide) (.escape (by decide) (by decide)
    (hword.append (.escape (by decide) (by decide) (.keep (by decide) .nil))))

/-- The new name names another folder. -/
theorem renameFields_cut :
    EncodesForm renameFields (ascii "folder=work&newname=a%26folder%3Db") ∧
    ∃ params, parseQueryParamsStorage (ascii "folder=work&newname=a%26folder%3Db") = .ok params ∧
      param params (ascii "folder") = some (ascii "b") ∧
      param params (ascii "newname") = some (ascii "a") ∧ ¬IsMapOf params renameFields :=
  ⟨renameFields_encoded,
    [(ascii "folder", ascii "work"), (ascii "newname", ascii "a"), (ascii "folder", ascii "b")],
    by decide, by decide, by decide, fun h => absurd (h (ascii "folder")) (by decide)⟩

theorem renameFields_decoded_iff :
    ∃ params, parseQueryParamsStorage (ascii "folder=work&newname=a%26folder%3Db") = .ok params ∧
      (IsMapOf params renameFields ↔ ∀ f ∈ renameFields, 38 ∉ f.2) :=
  storageFields_decoded_iff renameFields _ (by decide) (by decide) renameFields_encoded

end PennCloud
