import PennCloud.Frontend.Mail.Service

/-!
# The record in an id

The sender, the recipient, the subject and the time of a message are kept in its id, as
a text of assignments with a semicolon behind each. The values are put in as they are.
A semicolon in one of them ends it, and what follows may be an assignment of its own:
the later one counts, so that a subject can say who the sender is.

`PennCloud.record_read_iff` says when the four values are read back.
-/

namespace PennCloud

open Wire Text

/-- The record of a message. -/
def recordFields (sender recipient subject timestamp : Bytes) : List (Bytes × Bytes) :=
  [(ascii "sender", sender), (ascii "recipient", recipient), (ascii "subject", subject),
    (ascii "timestamp", timestamp)]

theorem decryptMetadata_emailId (sender recipient subject timestamp : Bytes) :
    decryptMetadata (emailId sender recipient subject timestamp) =
      createMetadata sender recipient subject timestamp :=
  List.reverse_reverse _

/-- An assignment at the beginning of a record. -/
theorem parseMetadata_append {key value : Bytes} (hkey : 58 ∉ key) (hkey' : 59 ∉ key)
    (hvalue : 59 ∉ value) (rest : Bytes) :
    parseMetadata (key ++ 58 :: value ++ 59 :: rest) = (key, value) :: parseMetadata rest := by
  have hpiece : 59 ∉ key ++ 58 :: value := by
    rw [List.mem_append, List.mem_cons]
    rintro (h | h | h)
    · exact hkey' h
    · exact absurd h (by decide)
    · exact hvalue h
  have hcut : cut (ascii ":") (key ++ 58 :: value) = some (key, value) :=
    cut_of_firstBehind (firstBehind_of_notMem hkey) value
  rw [parseMetadata, getlines_append_cons hpiece, List.filterMap_cons_some hcut]
  rfl

/-- A record without semicolons in its values is read back, in its order. -/
theorem parseMetadata_createMetadata {sender recipient subject timestamp : Bytes}
    (h : ∀ f ∈ recordFields sender recipient subject timestamp, 59 ∉ f.2) :
    parseMetadata (createMetadata sender recipient subject timestamp) =
      recordFields sender recipient subject timestamp := by
  have hcreate : createMetadata sender recipient subject timestamp =
      ascii "sender" ++ 58 :: sender ++ 59 :: (ascii "recipient" ++ 58 :: recipient ++ 59 ::
        (ascii "subject" ++ 58 :: subject ++ 59 :: (ascii "timestamp" ++ 58 :: timestamp ++
          59 :: []))) := by
    simp [createMetadata, ascii]
  simp only [recordFields, List.forall_mem_cons] at h
  obtain ⟨hsender, hrecipient, hsubject, htimestamp, -⟩ := h
  rw [hcreate, parseMetadata_append (by decide) (by decide) hsender,
    parseMetadata_append (by decide) (by decide) hrecipient,
    parseMetadata_append (by decide) (by decide) hsubject,
    parseMetadata_append (by decide) (by decide) htimestamp]
  rfl

/-- **The record is read back exactly if no value has a semicolon in it.** -/
theorem record_read_iff (sender recipient subject timestamp : Bytes) :
    IsMapOf (parseMetadata (decryptMetadata (emailId sender recipient subject timestamp)))
        (recordFields sender recipient subject timestamp) ↔
      59 ∉ sender ∧ 59 ∉ recipient ∧ 59 ∉ subject ∧ 59 ∉ timestamp := by
  have hnodup : ((recordFields sender recipient subject timestamp).map Prod.fst).Nodup := by
    change [ascii "sender", ascii "recipient", ascii "subject", ascii "timestamp"].Nodup
    decide
  have hvalues : (∀ f ∈ recordFields sender recipient subject timestamp, 59 ∉ f.2) ↔
      59 ∉ sender ∧ 59 ∉ recipient ∧ 59 ∉ subject ∧ 59 ∉ timestamp := by
    simp [recordFields]
  rw [← hvalues]
  constructor
  · intro hmap f hf
    exact notMem_of_assignment (mem_of_param ((hmap f.1).trans (lookup_of_mem hnodup hf)))
  · intro h
    rw [decryptMetadata_emailId, parseMetadata_createMetadata h]
    exact isMapOf_of_nodup hnodup

/-- A subject that names another sender. -/
theorem record_forged :
    header (emailId (ascii "mallory@localhost") (ascii "bob@localhost")
      (ascii "hi;sender:boss@localhost") (ascii "2025-05-01 12:00:00")) "sender" =
        ascii "boss@localhost" ∧
    ¬IsMapOf (parseMetadata (decryptMetadata (emailId (ascii "mallory@localhost")
      (ascii "bob@localhost") (ascii "hi;sender:boss@localhost") (ascii "2025-05-01 12:00:00"))))
      (recordFields (ascii "mallory@localhost") (ascii "bob@localhost")
        (ascii "hi;sender:boss@localhost") (ascii "2025-05-01 12:00:00")) :=
  ⟨by decide, fun h => absurd (h (ascii "sender")) (by decide)⟩

end PennCloud
