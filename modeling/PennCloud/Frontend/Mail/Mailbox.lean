import PennCloud.Frontend.Client

/-!
# Mailboxes

A mailbox is a row of the store, `inbox_email:` or `sent_email:` and the address.
A message is a column of it, which holds the body; the name of the column is the
*id* of the message, the text of its sender, recipient, subject and time,
"encrypted" by being reversed (`frontend/email/email_service.cc`,
`frontend/email/smtp_server.cc`, `utils/utils.cc`). The ids are listed, with
commas between them, in the column `meta` of the same row.

The web service and the mail server both write mailboxes, each with its own copy
of `appendToMetadata`; the two do the same. They reach the workers through a pool
(`frontend/email/client_pool.h`) that does not look at what the master answered:
the client it makes of an error text is one all of whose calls fail.
-/

namespace PennCloud

open Wire Calls Text

/-! ### The pool of clients -/

/-- `ClientPool::getWorkerClient`: whether the client that the pool returns for a
row can reach a worker. -/
def getWorkerClient (rowKey : Bytes) : Handler Bool := do
  let workerAddr ← lookup rowKey
  return !isErr workerAddr

/-- `Get` with a client of the pool. -/
def clientGet (client : Bool) (row column : Bytes) : Handler Bytes :=
  if client then Get row column else pure Worker.unreachable.err

/-- `Put` with a client of the pool. -/
def clientPut (client : Bool) (row column value : Bytes) : Handler Bytes :=
  if client then Put row column value else pure Worker.unreachable.err

/-- `Delete` with a client of the pool. -/
def clientDelete (client : Bool) (row column : Bytes) : Handler Bytes :=
  if client then Delete row column else pure Worker.unreachable.err

/-! ### Rows and ids -/

/-- The row of the messages a user has received. -/
def inboxRow (address : Bytes) : Bytes := ascii "inbox_email:" ++ address

/-- The row of the messages a user has sent. -/
def sentRow (address : Bytes) : Bytes := ascii "sent_email:" ++ address

/-- The column of the list of ids. -/
def metaColumn : Bytes := ascii "meta"

/-- `createMetadata`. -/
def createMetadata (sender recipient subject timestamp : Bytes) : Bytes :=
  ascii "sender:" ++ sender ++ ascii ";" ++ ascii "recipient:" ++ recipient ++ ascii ";" ++
    ascii "subject:" ++ subject ++ ascii ";" ++ ascii "timestamp:" ++ timestamp ++ ascii ";"

/-- `encryptMetadata`. -/
def encryptMetadata (metadata : Bytes) : Bytes := metadata.reverse

/-- `decryptMetadata`. -/
def decryptMetadata (encrypted : Bytes) : Bytes := encrypted.reverse

/-- The id of a message. -/
def emailId (sender recipient subject timestamp : Bytes) : Bytes :=
  encryptMetadata (createMetadata sender recipient subject timestamp)

/-! ### The list of ids -/

/-- The text of the list with one more id. -/
def appendedMeta (currentMeta emailId : Bytes) : Bytes :=
  if isErr currentMeta || currentMeta.isEmpty then emailId
  else currentMeta ++ ascii "," ++ emailId

/-- `appendToMetadata`: read the list, and write it with one more id. -/
def appendToMetadata (mailboxRow emailId : Bytes) : Handler Unit := do
  let client ← getWorkerClient mailboxRow
  let currentMeta ← clientGet client mailboxRow metaColumn
  let _ ← clientPut client mailboxRow metaColumn (appendedMeta currentMeta emailId)
  return ()

/-- The ids of a list. -/
def metaIds (metaList : Bytes) : List Bytes := (getlines 44 metaList).filter (!·.isEmpty)

/-- `removeFromMetadata`: read the list, and write it without an id. -/
def removeFromMetadata (mailboxRow emailId : Bytes) : Handler Unit := do
  let client ← getWorkerClient mailboxRow
  let currentMeta ← clientGet client mailboxRow metaColumn
  if isErr currentMeta then return ()
  else
    let ids := (metaIds currentMeta).filter (· ≠ emailId)
    let _ ← clientPut client mailboxRow metaColumn ([44].intercalate ids)
    return ()

/-! ### What is listed -/

/-- The ids that a mailbox shows: a text that reads as an error shows none. -/
def listedIds (metaList : Bytes) : List Bytes := if isErr metaList then [] else metaIds metaList

section Listed

variable {text id : Bytes}

theorem metaIds_eq (text : Bytes) : metaIds text = (text.splitOn 44).filter (!·.isEmpty) := by
  rw [metaIds, getlines]
  split_ifs with hlast
  · obtain ⟨ps, hps⟩ := List.getLast?_eq_some_iff.mp hlast
    rw [hps, List.dropLast_concat, List.filter_append]
    simp
  · rfl

/-- A list that goes on after a comma. -/
theorem metaIds_append (text' : Bytes) :
    metaIds (text ++ 44 :: text') = metaIds text ++ metaIds text' := by
  rw [metaIds_eq, metaIds_eq, metaIds_eq, List.splitOn_append_cons_self, List.filter_append]

theorem metaIds_singleton (h : 44 ∉ id) (hne : id ≠ []) : metaIds id = [id] := by
  rw [metaIds_eq, List.splitOn_eq_singleton h]
  simp [hne]

/-- The ids that are written are read again. -/
theorem metaIds_intercalate {ids : List Bytes} (hcomma : ∀ id ∈ ids, 44 ∉ id)
    (hne : ∀ id ∈ ids, id ≠ []) : metaIds ([44].intercalate ids) = ids := by
  rcases eq_or_ne ids [] with rfl | hids
  · rfl
  · rw [metaIds_eq, List.splitOn_intercalate 44 hcomma hids, List.filter_eq_self]
    simpa using hne

end Listed

/-- What is listed depends on the cell of the list only: a list that is not there
reads as an error, whatever its wording. -/
theorem listedIds_text_congr {kvs kvs' : Tablet} {row : Bytes}
    (h : kvs'.cells (row, metaColumn) = kvs.cells (row, metaColumn)) :
    listedIds (kvs'.text row metaColumn) = listedIds (kvs.text row metaColumn) := by
  rcases hv : kvs.cells (row, metaColumn) with _ | v
  · have hold := Tablet.isErr_of_none hv
    have hnew := Tablet.isErr_of_none (h.trans hv)
    rw [listedIds, listedIds, if_pos hold, if_pos hnew]
  · rw [Tablet.text_of_some hv, Tablet.text_of_some (h.trans hv)]

/-! ### Ids -/

/-- The text of an id begins with a semicolon. -/
def IsEmailId (id : Bytes) : Prop := ∃ rest, id = 59 :: rest

theorem isEmailId_emailId (sender recipient subject timestamp : Bytes) :
    IsEmailId (emailId sender recipient subject timestamp) := by
  refine ⟨(ascii "sender:" ++ sender ++ ascii ";" ++ ascii "recipient:" ++ recipient ++ ascii ";" ++
    ascii "subject:" ++ subject ++ ascii ";" ++ ascii "timestamp:" ++ timestamp).reverse, ?_⟩
  rw [emailId, encryptMetadata, createMetadata, List.reverse_append]
  rfl

section IsEmailId

variable {id : Bytes} (h : IsEmailId id)
include h

theorem IsEmailId.ne_nil : id ≠ [] := by
  obtain ⟨rest, rfl⟩ := h
  exact List.cons_ne_nil 59 rest

theorem IsEmailId.isErr_eq_false : isErr id = false := by
  obtain ⟨rest, rfl⟩ := h
  rfl

theorem IsEmailId.ne_metaColumn : id ≠ metaColumn := by
  obtain ⟨rest, rfl⟩ := h
  exact fun heq => absurd (List.cons.inj heq).1 (by decide)

/-- **One more id is listed**, after all that were. -/
theorem IsEmailId.listedIds_appendedMeta (hcomma : 44 ∉ id) (text : Bytes) :
    listedIds (appendedMeta text id) = listedIds text ++ [id] := by
  have hsingle : metaIds id = [id] := metaIds_singleton hcomma h.ne_nil
  by_cases hnone : (isErr text || text.isEmpty) = true
  · have hlisted : listedIds text = [] := by
      rcases Bool.or_eq_true _ _ |>.mp hnone with herr | hnil
      · rw [listedIds, if_pos herr]
      · rw [List.isEmpty_iff.mp hnil]
        rfl
    rw [appendedMeta, if_pos hnone, hlisted, listedIds, h.isErr_eq_false,
      if_neg Bool.false_ne_true, hsingle]
    rfl
  · obtain ⟨hok, hnil⟩ : isErr text = false ∧ text ≠ [] := by simpa using hnone
    have htext : text ++ ascii "," ++ id = text ++ 44 :: id := by simp [ascii]
    rw [appendedMeta, if_neg hnone, htext, listedIds, isErr_append_comma hnil hok, listedIds, hok,
      if_neg Bool.false_ne_true, if_neg Bool.false_ne_true, metaIds_append, hsingle]

omit h

/-- A list of ids does not read as an error. -/
theorem isErr_intercalate {ids : List Bytes} (hids : ∀ id ∈ ids, IsEmailId id) :
    isErr ([44].intercalate ids) = false := by
  rcases ids with _ | ⟨id, ids⟩
  · rfl
  · obtain ⟨rest, rfl⟩ := hids id List.mem_cons_self
    rcases ids with _ | ⟨id', ids⟩
    · rw [List.intercalate_singleton]
      rfl
    · rw [List.intercalate_cons_cons]
      rfl

/-- **The list that is written shows its ids.** -/
theorem listedIds_intercalate {ids : List Bytes} (hids : ∀ id ∈ ids, IsEmailId id ∧ 44 ∉ id) :
    listedIds ([44].intercalate ids) = ids := by
  rw [listedIds, isErr_intercalate fun id hid => (hids id hid).1, if_neg Bool.false_ne_true]
  exact metaIds_intercalate (fun id hid => (hids id hid).2) fun id hid => (hids id hid).1.ne_nil

end IsEmailId

end PennCloud
