import PennCloud.Frontend.Mail.Ownership
import PennCloud.Frontend.Mail.Readable

/-!
# The list of a mailbox

The column `meta` of a mailbox is meant to be a list: the web mail and the mail server
append an id to it, the web mail removes one and shows them all. The three programs
write and read it as one text, in which the ids stand with commas between them. An id
with a comma, which it has when the subject or an address has one, is read as two.

`PennCloud.mailbox_lists_iff` compares the text with the list it stands for
(`PennCloud.ListOp.apply`), in all states of all runs of these operations.
-/

namespace PennCloud

open Wire Calls Text

/-! ### Operations -/

/-- What the id of a message is made of. -/
structure MailRecord where
  /-- The sender. -/
  sender : Bytes
  /-- The recipient. -/
  recipient : Bytes
  /-- The subject. -/
  subject : Bytes
  /-- The time. -/
  timestamp : Bytes
  deriving DecidableEq

/-- The record, as it is put together. -/
def MailRecord.metadata (m : MailRecord) : Bytes :=
  createMetadata m.sender m.recipient m.subject m.timestamp

/-- The id. -/
def MailRecord.id (m : MailRecord) : Bytes := encryptMetadata m.metadata

theorem MailRecord.isEmailId_id (m : MailRecord) : IsEmailId m.id :=
  isEmailId_emailId m.sender m.recipient m.subject m.timestamp

/-- `appendToMetadata` of the mail server, which makes the id of the record itself. -/
def Smtp.appendToMetadata (mailboxRow rawMeta : Bytes) : Handler Unit :=
  PennCloud.appendToMetadata mailboxRow (encryptMetadata rawMeta)

/-- What is done to the list of a mailbox. -/
inductive ListOp where
  /-- The web mail appends an id. -/
  | append (m : MailRecord)
  /-- The mail server appends an id. -/
  | appendRaw (m : MailRecord)
  /-- The web mail removes an id. -/
  | remove (m : MailRecord)

namespace ListOp

/-- The calls on the store. -/
def handler (row : Bytes) : ListOp → Handler Unit
  | append m => appendToMetadata row m.id
  | appendRaw m => Smtp.appendToMetadata row m.metadata
  | remove m => removeFromMetadata row m.id

/-- The rows afterwards. -/
def exec (master : Master) (row : Bytes) (kvs : Tablet) (op : ListOp) : Tablet :=
  ((op.handler row).run (Call.exec master) kvs).2

/-- **The list afterwards.** -/
def apply (ids : List Bytes) : ListOp → List Bytes
  | append m => ids ++ [m.id]
  | appendRaw m => ids ++ [m.id]
  | remove m => ids.filter (· ≠ m.id)

/-- The id that an operation appends. -/
def appended : ListOp → Option Bytes
  | append m => some m.id
  | appendRaw m => some m.id
  | remove _ => none

/-- An id is appended at the end. -/
theorem apply_of_appended {op : ListOp} {id : Bytes} (h : op.appended = some id)
    (ids : List Bytes) : op.apply ids = ids ++ [id] := by
  cases op with
  | append m => rw [apply, Option.some.inj h]
  | appendRaw m => rw [apply, Option.some.inj h]
  | remove m => exact absurd h (Option.some_ne_none id).symm

end ListOp

/-! ### The text of a list -/

/-- The text of a mailbox is that of a list of ids. -/
structure MailboxLists (kvs : Tablet) (row : Bytes) (ids : List Bytes) : Prop where
  /-- They are shown. -/
  listed : listedIds (kvs.text row metaColumn) = ids
  /-- They are ids without commas. -/
  isId : ∀ id ∈ ids, IsEmailId id ∧ 44 ∉ id

section MailboxLists

variable {master : Master} {kvs : Tablet} {row : Bytes} {ids : List Bytes}

/-- A mailbox that shows nothing. -/
theorem MailboxLists.nil (h : listedIds (kvs.text row metaColumn) = []) :
    MailboxLists kvs row [] :=
  ⟨h, fun _ hid => absurd hid List.not_mem_nil⟩

theorem MailboxLists.append (h : MailboxLists kvs row ids) {id : Bytes} (hid : IsEmailId id)
    (hcomma : 44 ∉ id) :
    MailboxLists (withListed kvs row id) row (ids ++ [id]) where
  listed := by
    have hcell : (withListed kvs row id).cells (row, metaColumn) =
        some (appendedMeta (kvs.text row metaColumn) id) := by
      rw [withListed, Tablet.cells_put, Function.update_self]
    rw [Tablet.text_of_some hcell, hid.listedIds_appendedMeta hcomma, h.listed]
  isId := List.forall_mem_append.mpr ⟨h.isId, List.forall_mem_singleton.mpr ⟨hid, hcomma⟩⟩

theorem MailboxLists.remove (h : MailboxLists kvs row ids) (id : Bytes) :
    MailboxLists (MailHistory.withoutListed kvs row id) row (ids.filter (· ≠ id)) where
  listed := by
    rw [MailHistory.withoutListed]
    split_ifs with herr
    · have hnil : ids = [] := by rw [← h.listed, listedIds, if_pos herr]
      rw [h.listed, hnil]
      rfl
    · have hids : metaIds (kvs.text row metaColumn) = ids := by
        rw [← h.listed, listedIds, if_neg herr]
      have hcell : (kvs.put row metaColumn ([44].intercalate (ids.filter (· ≠ id)))).cells
          (row, metaColumn) = some ([44].intercalate (ids.filter (· ≠ id))) := by
        rw [Tablet.cells_put, Function.update_self]
      rw [hids, Tablet.text_of_some hcell]
      exact listedIds_intercalate fun i hi => h.isId i (List.mem_filter.mp hi).1
  isId := fun i hi => h.isId i (List.mem_filter.mp hi).1

/-- **One operation.** -/
theorem MailboxLists.exec (hreach : Reached master row) (h : MailboxLists kvs row ids) {op : ListOp}
    (hop : ∀ id ∈ op.appended, 44 ∉ id) :
    MailboxLists (op.exec master row kvs) row (op.apply ids) := by
  cases op with
  | append m =>
    rw [ListOp.exec, ListOp.handler, run_appendToMetadata master kvs row m.id hreach]
    exact h.append m.isEmailId_id (hop m.id rfl)
  | appendRaw m =>
    rw [ListOp.exec, ListOp.handler, Smtp.appendToMetadata]
    rw [run_appendToMetadata master kvs row (encryptMetadata m.metadata) hreach]
    exact h.append m.isEmailId_id (hop m.id rfl)
  | remove m =>
    rw [ListOp.exec, ListOp.handler, MailHistory.run_removeFromMetadata m.id hreach]
    exact h.remove m.id

/-- **A run of operations.** -/
theorem MailboxLists.foldl (hreach : Reached master row) (h : MailboxLists kvs row ids)
    {ops : List ListOp}
    (hops : ∀ op ∈ ops, ∀ id ∈ op.appended, 44 ∉ id) :
    MailboxLists (ops.foldl (ListOp.exec master row) kvs) row (ops.foldl ListOp.apply ids) :=
  List.foldl_rel (r := fun kvs ids => MailboxLists kvs row ids) h
    fun op hop _ _ hlists => hlists.exec hreach (hops op hop)

end MailboxLists

/-! ### What is shown -/

/-- The ids in the table of a folder. -/
def MailPage.ids (folder : Bytes) : MailPage → List Bytes
  | .inbox _ inboxTable sentTable =>
    ((if folder = ascii "sent" then sentTable else inboxTable).getD []).map MailEntry.id
  | _ => []

section Shown

variable {master : Master} (kvs : Tablet)

theorem run_renderTable_ids {row : Bytes} (hreach : Reached master row) (who : String) :
    ∃ table, (renderTable row who).run (Call.exec master) kvs = (.ok table, kvs) ∧
      (table.getD []).map MailEntry.id = listedIds (kvs.text row metaColumn) := by
  rw [renderTable, run_getWorkerClient_bind, hreach]
  simp only [clientGet, Bool.not_false, if_true, run_Get_bind]
  rcases herr : isErr (kvs.text row metaColumn) with _ | _
  · split_ifs with hnone
    · have hempty : kvs.text row metaColumn = [] := by simpa using hnone
      exact ⟨none, rfl, by rw [hempty]; rfl⟩
    · refine ⟨_, rfl, ?_⟩
      rw [listedIds, herr, if_neg Bool.false_ne_true, Option.getD_some, List.map_map]
      exact List.map_id _
  · rw [if_pos (Bool.true_or _)]
    exact ⟨none, rfl, by rw [listedIds, if_pos herr]; rfl⟩

/-- **The page shows what is listed.** -/
theorem run_renderInbox_ids {username folder : Bytes}
    (hreach : Reached master (folderRow username folder)) :
    ∃ page, (renderInbox username).run (Call.exec master) kvs = (.ok page, kvs) ∧
      page.ids folder = listedIds (kvs.text (folderRow username folder) metaColumn) := by
  rw [renderInbox]
  rw [folderRow] at hreach ⊢
  split_ifs at hreach ⊢ with hsent
  · obtain ⟨received, hreceived⟩ := run_renderTable master kvs (inboxRow username) "sender"
    obtain ⟨sent, hrun, hids⟩ := run_renderTable_ids kvs hreach "recipient"
    refine ⟨.inbox username received sent, ?_, ?_⟩
    · rw [Prog.run_bind_of_ok _ hreceived, Prog.run_bind_of_ok _ hrun]
      rfl
    · rw [MailPage.ids, if_pos hsent, hids]
  · obtain ⟨received, hrun, hids⟩ := run_renderTable_ids kvs hreach "sender"
    obtain ⟨sent, hsentRun⟩ := run_renderTable master kvs (sentRow username) "recipient"
    refine ⟨.inbox username received sent, ?_, ?_⟩
    · rw [Prog.run_bind_of_ok _ hrun, Prog.run_bind_of_ok _ hsentRun]
      rfl
    · rw [MailPage.ids, if_neg hsent, hids]

theorem notMem_of_mem_listedIds {text id : Bytes} (h : id ∈ listedIds text) : 44 ∉ id := by
  rw [listedIds] at h
  split_ifs at h with herr
  · exact absurd h List.not_mem_nil
  · exact notMem_of_mem_getlines (List.mem_filter.mp h).1

/-- **A mailbox behaves as a list in every state of a run exactly if no id with a comma
is appended in it.** -/
theorem mailbox_lists_iff (master : Master) (username folder : Bytes)
    (hreach : Reached master (folderRow username folder))
    (hempty : listedIds (kvs.text (folderRow username folder) metaColumn) = [])
    (ops : List ListOp) :
    (∀ done, done <+: ops →
      ∃ page, (renderInbox username).run (Call.exec master)
          (done.foldl (ListOp.exec master (folderRow username folder)) kvs) =
            (.ok page, done.foldl (ListOp.exec master (folderRow username folder)) kvs) ∧
        page.ids folder = done.foldl ListOp.apply []) ↔
      ∀ op ∈ ops, ∀ id ∈ op.appended, 44 ∉ id := by
  constructor
  · intro h op hop id hid
    obtain ⟨l, r, rfl⟩ := List.append_of_mem hop
    obtain ⟨page, hpage, hids⟩ := h (l ++ [op]) ⟨r, by simp⟩
    obtain ⟨page', hpage', hids'⟩ := run_renderInbox_ids
      ((l ++ [op]).foldl (ListOp.exec master (folderRow username folder)) kvs) hreach
    obtain rfl : page' = page := by
      rw [hpage] at hpage'
      exact (Except.ok.inj (Prod.mk.inj hpage').1).symm
    rw [hids, List.foldl_append, List.foldl_cons, List.foldl_nil,
      ListOp.apply_of_appended hid] at hids'
    have hshown : id ∈ l.foldl ListOp.apply [] ++ [id] := List.mem_append_right _ List.mem_cons_self
    rw [hids'] at hshown
    exact notMem_of_mem_listedIds hshown
  · intro h done hdone
    have hlists := (MailboxLists.nil hempty).foldl hreach fun op hop => h op (hdone.subset hop)
    obtain ⟨page, hpage, hids⟩ := run_renderInbox_ids _ hreach
    exact ⟨page, hpage, hids.trans hlists.listed⟩

end Shown

/-! ### A subject with a comma -/

/-- A message of which the subject is given. -/
def recordAbout (subject : String) : MailRecord :=
  ⟨ascii "ann@localhost", ascii "bob@localhost", ascii subject, ascii "2025-05-01 10:00:00"⟩

example : 44 ∈ (recordAbout "a,b").id := by decide +kernel

theorem mailbox_lists_plain :
    (∀ done, done <+: [ListOp.append (recordAbout "x"), .appendRaw (recordAbout "y"),
        .remove (recordAbout "x")] →
      ∃ page, (renderInbox (ascii "bob@localhost")).run (Call.exec Master.first)
          (done.foldl (ListOp.exec Master.first
            (folderRow (ascii "bob@localhost") (ascii "inbox"))) ∅) =
            (.ok page, done.foldl (ListOp.exec Master.first
              (folderRow (ascii "bob@localhost") (ascii "inbox"))) ∅) ∧
        page.ids (ascii "inbox") = done.foldl ListOp.apply []) ↔
      ∀ op ∈ [ListOp.append (recordAbout "x"), .appendRaw (recordAbout "y"),
        .remove (recordAbout "x")], ∀ id ∈ op.appended, 44 ∉ id :=
  mailbox_lists_iff ∅ Master.first (ascii "bob@localhost") (ascii "inbox")
    (isErr_lookup Master.up_first _) (by decide +kernel) _

/-- **A subject with a comma** makes two entries of one message. -/
theorem mailbox_splits :
    ∃ page, ((renderInbox (ascii "bob@localhost")).run (Call.exec Master.first)
        (ListOp.exec Master.first (folderRow (ascii "bob@localhost") (ascii "inbox")) ∅
          (.append (recordAbout "x,y")))).1 = .ok page ∧
      (page.ids (ascii "inbox")).length = 2 ∧
      page.ids (ascii "inbox") ≠ [ListOp.append (recordAbout "x,y")].foldl ListOp.apply [] := by
  refine ⟨.inbox (ascii "bob@localhost") (some ((metaIds (recordAbout "x,y").id).map fun encId =>
    ⟨encId, header encId "sender", header encId "subject", header encId "timestamp"⟩)) none,
    ?_, ?_, ?_⟩
  · decide +kernel
  · decide +kernel
  · decide +kernel

end PennCloud
