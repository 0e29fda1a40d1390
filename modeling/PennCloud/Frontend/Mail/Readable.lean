import PennCloud.Frontend.Delivery
import PennCloud.Frontend.Mail.Service
import PennCloud.Frontend.Mail.Smtp

/-!
# Messages that can be read

What becomes of the messages of one mailbox while messages are delivered to it, by
the web service and by the mail server, and deleted again, one request after the
other. The id of a message is made of its sender, its recipient, its subject and the
second it was sent in; it is the name of the column with the body, the entry on the
list, and what a request to delete the message says.

Whoever delivers, the message is *deposited* the same way (`PennCloud.Deposit`), and
`PennCloud.MailEvent.makes_handler` says that deposits are all that a mailbox sees of a
delivery. A history keeps, beside the store, the messages that were deposited in the
mailbox and not deleted since (`PennCloud.MailHistory`). They can be read,
`PennCloud.MailHistory.Readable`, when each of them has an entry of its own and its
body is what `viewEmail` shows.

That is so in every history in which a message that is delivered has an id no
message of the mailbox has (`PennCloud.mail_readable`). Two messages of the same second
with the same subject, and the first one is gone (`PennCloud.mail_overwritten`). An id
must not have a comma either, which ends an entry of the list, nor a body begin with
`ERR`, which `viewEmail` takes for an error of the store. And the calls about the mailbox
have to come through (`PennCloud.MailHistory.Delivered`): a `Put` that does not goes
unnoticed by the mail server, and the id of a message whose subject is not ASCII is not
UTF-8, since it is the text of the subject in reverse.
-/

namespace PennCloud

open Wire Calls Text

/-! ### Deposits -/

/-- A message that is put into a mailbox. -/
structure Deposit where
  /-- The row of the mailbox. -/
  row : Bytes
  /-- The id of the message. -/
  id : Bytes
  /-- Its body. -/
  body : Bytes
  deriving DecidableEq

/-- The rows with an id more on a list. -/
def withListed (kvs : Tablet) (row id : Bytes) : Tablet :=
  kvs.put row metaColumn (appendedMeta (kvs.text row metaColumn) id)

/-- The rows after a deposit; nothing is done when the master does not answer. -/
def Deposit.exec (master : Master) (kvs : Tablet) (d : Deposit) : Tablet :=
  if isErr (clientText (master d.row)) then kvs
  else withListed (kvs.put d.row d.id d.body) d.row d.id

namespace Deposit

variable (master : Master) {kvs kvs' : Tablet} {b : Bytes}

theorem cells_withListed_of_ne {row id : Bytes} {cell : Bytes × Bytes}
    (hcell : cell ≠ (row, metaColumn)) : (withListed kvs row id).cells cell = kvs.cells cell := by
  rw [withListed, Tablet.cells_put, Function.update_of_ne hcell]

/-- A deposit in another row. -/
theorem cells_exec_of_ne {d : Deposit} (hrow : d.row ≠ b) (column : Bytes) :
    (d.exec master kvs).cells (b, column) = kvs.cells (b, column) := by
  have hne : ∀ c, (b, column) ≠ (d.row, c) := fun c heq => hrow (Prod.mk.inj heq).1.symm
  rw [Deposit.exec]
  split_ifs with hreach
  · rfl
  · rw [cells_withListed_of_ne (hne _), Tablet.cells_put, Function.update_of_ne (hne _)]

theorem appendedMeta_text_congr {row : Bytes}
    (h : kvs'.cells (row, metaColumn) = kvs.cells (row, metaColumn)) (id : Bytes) :
    appendedMeta (kvs'.text row metaColumn) id = appendedMeta (kvs.text row metaColumn) id := by
  rcases hv : kvs.cells (row, metaColumn) with _ | v
  · rw [appendedMeta, appendedMeta, Tablet.isErr_of_none hv, Tablet.isErr_of_none (h.trans hv)]
    rfl
  · rw [Tablet.text_of_some hv, Tablet.text_of_some (h.trans hv)]

theorem cells_put_congr (h : ∀ column, kvs'.cells (b, column) = kvs.cells (b, column))
    (row c value column : Bytes) :
    (kvs'.put row c value).cells (b, column) = (kvs.put row c value).cells (b, column) := by
  rw [Tablet.cells_put, Tablet.cells_put, Function.update_apply, Function.update_apply, h]

/-- What a deposit makes of a row depends on the row only. -/
theorem cells_exec_congr (h : ∀ column, kvs'.cells (b, column) = kvs.cells (b, column))
    (d : Deposit) (column : Bytes) :
    (d.exec master kvs').cells (b, column) = (d.exec master kvs).cells (b, column) := by
  rcases eq_or_ne d.row b with rfl | hrow
  · rw [Deposit.exec, Deposit.exec]
    split_ifs with hreach
    · exact h column
    · have hput := cells_put_congr h d.row d.id d.body
      rw [withListed, withListed, appendedMeta_text_congr (hput metaColumn)]
      exact cells_put_congr hput _ _ _ column
  · rw [cells_exec_of_ne master hrow, cells_exec_of_ne master hrow, h]

theorem cells_foldl_exec_congr (ds : List Deposit)
    (h : ∀ column, kvs'.cells (b, column) = kvs.cells (b, column)) (column : Bytes) :
    (ds.foldl (Deposit.exec master) kvs').cells (b, column) =
      (ds.foldl (Deposit.exec master) kvs).cells (b, column) := by
  induction ds generalizing kvs kvs' with
  | nil => exact h column
  | cons d ds ih => exact ih (cells_exec_congr master h d)

end Deposit

theorem isErr_put_successful : isErr (ascii "PUT Successful") = false := by decide

theorem isErr_delete_successful : isErr (ascii "Delete Successful") = false := by decide

section Run

variable (master : Master) (kvs : Tablet) (row id body : Bytes)

theorem run_getWorkerClient_bind {α : Type} (f : Bool → Handler α) :
    (getWorkerClient row >>= f).run (Call.exec master) kvs =
      (f (!isErr (clientText (master row)))).run (Call.exec master) kvs := rfl

theorem run_getWorkerClient (hreach : isErr (clientText (master row)) = false) :
    (getWorkerClient row).run (Call.exec master) kvs = (.ok true, kvs) := by
  show (Except.ok (!isErr (clientText (master row))), kvs) = _
  rw [hreach]
  rfl

theorem run_appendToMetadata (hreach : isErr (clientText (master row)) = false) :
    (appendToMetadata row id).run (Call.exec master) kvs = (.ok (), withListed kvs row id) := by
  rw [appendToMetadata, run_getWorkerClient_bind, hreach]
  rfl

theorem run_appendToMetadata_of_isErr (hreach : isErr (clientText (master row)) = true) :
    (appendToMetadata row id).run (Call.exec master) kvs = (.ok (), kvs) := by
  rw [appendToMetadata, run_getWorkerClient_bind, hreach]
  rfl

/-- **A deposit of the web service.** -/
theorem run_storeEmail : (storeEmail row id body).run (Call.exec master) kvs =
    (.ok (!isErr (clientText (master row))), Deposit.exec master kvs ⟨row, id, body⟩) := by
  rw [storeEmail, run_getWorkerClient_bind, Deposit.exec]
  cases hreach : isErr (clientText (master row)) with
  | true => rfl
  | false =>
    simp only [clientPut, Bool.not_false, if_true, run_Put_bind, isErr_put_successful,
      Bool.false_eq_true, if_false]
    have happend := run_appendToMetadata master (kvs.put row id body) row id hreach
    exact Prog.run_bind_of_ok (Call.exec master) happend

/-- **A deposit of the mail server.** -/
theorem run_store : (Smtp.store row id body).run (Call.exec master) kvs =
    (.ok (), Deposit.exec master kvs ⟨row, id, body⟩) := by
  rw [Smtp.store, run_getWorkerClient_bind, Deposit.exec]
  cases hreach : isErr (clientText (master row)) with
  | true => exact run_appendToMetadata_of_isErr master kvs row id hreach
  | false => exact run_appendToMetadata master (kvs.put row id body) row id hreach

/-- The notice that a message could not be relayed. -/
def failureNotice (sender failedRecipient reason timestamp : Bytes) : Deposit :=
  ⟨inboxRow sender, emailId (ascii "mailer-daemon@localhost") sender
      (ascii "Delivery Failed to " ++ failedRecipient) timestamp,
    ascii "Your email could not be delivered to " ++ failedRecipient ++ ascii ".\nReason: " ++
      reason⟩

/-- **A deposit of the mail server**, for the sender. -/
theorem run_sendDeliveryFailure (sender failedRecipient reason timestamp : Bytes) :
    (Smtp.sendDeliveryFailure sender failedRecipient reason timestamp).run (Call.exec master) kvs =
      (.ok (), (failureNotice sender failedRecipient reason timestamp).exec master kvs) := by
  rw [Smtp.sendDeliveryFailure, run_getWorkerClient_bind, Deposit.exec, failureNotice]
  cases isErr (clientText (master (inboxRow sender))) with
  | true => rfl
  | false =>
    simp only [clientPut, clientGet, Bool.not_false, if_true, run_Put_bind, run_Get_bind,
      Bool.false_eq_true, if_false, Prog.run_pure, withListed]

end Run

/-! ### Events -/

/-- What happens to mailboxes. -/
inductive MailEvent where
  /-- A form of the web service is sent: `sendEmail`. -/
  | send (env : Surroundings) (postData : Bytes)
  /-- A message of a connection to the mail server comes to its end. -/
  | endOfData (extraCreditNonLocal : Bool) (moment : Smtp.Moment) (st : Smtp.Session)
  /-- A message is deleted: `deleteEmail`. -/
  | delete (username emailId folder : Bytes)

namespace MailEvent

/-- The calls on the store. -/
def handler : MailEvent → Handler Unit
  | .send env postData => do
    let _ ← sendEmail env postData
    return ()
  | .endOfData extraCreditNonLocal moment st =>
    Prog.each Smtp.Output.calls (Smtp.endOfData moment st extraCreditNonLocal).1
  | .delete username emailId folder => do
    let _ ← deleteEmail username emailId folder
    return ()

/-- The deposits of a form. -/
def formDeposits (env : Surroundings) (sender recipient subject body : Bytes) : List Deposit :=
  let id := emailId sender recipient subject env.timestamp
  (if isExternalEmail recipient then [] else [⟨inboxRow recipient, id, body⟩]) ++
    [⟨sentRow sender, id, body⟩]

/-- The deposits of an output of the mail server. -/
def outputDeposits : Smtp.Output → List Deposit
  | .reply _ => []
  | .deliver sender recipient subject timestamp body =>
    let id := emailId sender recipient subject timestamp
    ⟨inboxRow recipient, id, body⟩ ::
      if found "@localhost" sender then [⟨sentRow sender, id, body⟩] else []
  | .relay _ _ _ _ => []
  | .bounce sender recipient reason timestamp => [failureNotice sender recipient reason timestamp]

/-- All deposits of an event. -/
def deposits : MailEvent → List Deposit
  | .send env postData => formDeposits env (formField postData "username")
      (formField postData "to") (formField postData "subject") (formField postData "body")
  | .endOfData extraCreditNonLocal moment st =>
    (Smtp.endOfData moment st extraCreditNonLocal).1.flatMap outputDeposits
  | .delete _ _ _ => []

section Run

variable (master : Master) (kvs : Tablet)

theorem run_sendMessage (env : Surroundings) (sender recipient subject body : Bytes) :
    ∃ page, (sendMessage env sender recipient subject body).run (Call.exec master) kvs =
      (.ok page, (formDeposits env sender recipient subject body).foldl (Deposit.exec master)
        kvs) := by
  rw [sendMessage, formDeposits]
  split_ifs with hexternal
  · have hsent := run_storeEmail master kvs (sentRow sender)
      (emailId sender recipient subject env.timestamp) body
    exact ⟨_, Prog.run_bind_of_ok (Call.exec master) hsent⟩
  · have hinbox := run_storeEmail master kvs (inboxRow recipient)
      (emailId sender recipient subject env.timestamp) body
    have hsent := run_storeEmail master (Deposit.exec master kvs ⟨inboxRow recipient,
      emailId sender recipient subject env.timestamp, body⟩) (sentRow sender)
      (emailId sender recipient subject env.timestamp) body
    exact ⟨_, (Prog.run_bind_of_ok (Call.exec master) hinbox).trans
      (Prog.run_bind_of_ok (Call.exec master) hsent)⟩

end Run

/-! ### What a mailbox sees of a delivery -/

section Mailbox

variable (refused : Call → Status) (master : Master) (b : Bytes) {α β : Type}

/-- The calls of a run about the mailbox `b` come through. -/
def ComesThrough (p : Handler α) (kvs : Tablet) : Prop :=
  p.Meets (Call.send refused master) (Call.DeliveredTo b) kvs

instance (p : Handler α) (kvs : Tablet) : Decidable (ComesThrough refused master b p kvs) :=
  inferInstanceAs (Decidable (Prog.Meets _ _ _ _))

/-- What a run makes of the mailbox `b`: it returns, and has made these deposits, whose
bodies came through. -/
structure Makes (p : Handler α) (kvs : Tablet) (ds : List Deposit) : Prop where
  ends : p.Ends (Call.send refused master) kvs
  agree : ∀ column, (p.run (Call.send refused master) kvs).2.cells (b, column) =
    (ds.foldl (Deposit.exec master) kvs).cells (b, column)
  delivered : ∀ d ∈ ds, d.row = b → isErr (clientText (master b)) = false →
    (Call.update (.put d.row d.id d.body)).delivered ∅ = true

variable {refused master b} {kvs : Tablet} {row id body : Bytes}

theorem Makes.pure (a : α) : Makes refused master b (Pure.pure a : Handler α) kvs [] :=
  ⟨Prog.ends_pure a kvs, fun _ => rfl, by simp⟩

/-- **One after the other.** -/
theorem Makes.bind {p : Handler α} {f : α → Handler β} {ds ds' : List Deposit}
    (hp : Makes refused master b p kvs ds)
    (hf : ∀ a t, p.run (Call.send refused master) kvs = (.ok a, t) →
      Makes refused master b (f a) t ds') : Makes refused master b (p >>= f) kvs (ds ++ ds') := by
  obtain ⟨a, ha⟩ := hp.ends
  have hrun : p.run (Call.send refused master) kvs =
    (.ok a, (p.run (Call.send refused master) kvs).2) := Prod.ext ha rfl
  have h := hf a _ hrun
  refine ⟨(Prog.ends_bind_of_ok hrun).mpr h.ends, fun column => ?_, fun d hd => ?_⟩
  · rw [Prog.run_bind_of_ok _ hrun, h.agree, List.foldl_append]
    exact Deposit.cells_foldl_exec_congr master ds' hp.agree column
  · rcases List.mem_append.mp hd with hd | hd
    · exact hp.delivered d hd
    · exact h.delivered d hd

theorem uses_clientGet (client : Bool) (column : Bytes) :
    (clientGet client row column).Uses fun c => c.about = row := by
  cases client with
  | false => exact trivial
  | true => exact ⟨rfl, fun _ => trivial⟩

theorem uses_clientPut (client : Bool) (column value : Bytes) :
    (clientPut client row column value).Uses fun c => c.about = row := by
  cases client with
  | false => exact trivial
  | true => exact ⟨rfl, fun _ => trivial⟩

theorem uses_clientDelete (client : Bool) (column : Bytes) :
    (clientDelete client row column).Uses fun c => c.about = row := by
  cases client with
  | false => exact trivial
  | true => exact ⟨rfl, fun _ => trivial⟩

theorem total_clientGet (client : Bool) (column : Bytes) : (clientGet client row column).Total := by
  cases client with
  | false => exact trivial
  | true => exact fun _ => trivial

theorem total_clientPut (client : Bool) (column value : Bytes) :
    (clientPut client row column value).Total := by
  cases client with
  | false => exact trivial
  | true => exact fun _ => trivial

theorem uses_appendToMetadata : (appendToMetadata row id).Uses fun c => c.about = row :=
  ⟨rfl, fun _ => (uses_clientGet _ _).bind fun _ => (uses_clientPut _ _ _).bind fun _ => trivial⟩

theorem total_appendToMetadata : (appendToMetadata row id).Total :=
  fun _ => (total_clientGet _ _).bind fun _ => (total_clientPut _ _ _).bind fun _ => trivial

/-- **A program that makes one deposit**: it asks for the row and puts the body, and what
it does then is about the row, too. -/
theorem Makes.one {p : Handler α} {f : Bool → Bytes → Handler α}
    (hp : p = getWorkerClient row >>= fun client => clientPut client row id body >>= f client)
    (huses : ∀ client result, (f client result).Uses fun c => c.about = row)
    (htotal : ∀ client result, (f client result).Total)
    (hexec : (p.run (Call.exec master) kvs).2 = Deposit.exec master kvs ⟨row, id, body⟩)
    (h : ComesThrough refused master b p kvs) :
    Makes refused master b p kvs [⟨row, id, body⟩] := by
  have husesAll : p.Uses fun c => c.about = row := by
    rw [hp]
    exact ⟨rfl, fun _ => (uses_clientPut _ _ _).bind fun _ => huses _ _⟩
  have htotalAll : p.Total := by
    rw [hp]
    exact fun _ => (total_clientPut _ _ _).bind fun _ => htotal _ _
  refine ⟨htotalAll.ends kvs, fun column => ?_, fun d hd hrow hreach => ?_⟩
  · rcases eq_or_ne row b with rfl | hrow
    · rw [Call.run_send_of_deliveredTo husesAll h, hexec]
      rfl
    · rw [Call.cells_run_send_of_ne husesAll hrow]
      exact (Deposit.cells_exec_of_ne master hrow column).symm
  · obtain rfl := List.mem_singleton.mp hd
    obtain rfl : row = b := hrow
    rw [hp] at h
    have hlookup : (Call.lookup row).send refused master kvs = (clientText (master row), kvs) :=
      Call.send_of_delivered (h.1 rfl)
    have hclient : (getWorkerClient row).run (Call.send refused master) kvs = (.ok true, kvs) := by
      show (Except.ok (!isErr ((Call.lookup row).send refused master kvs).1),
        ((Call.lookup row).send refused master kvs).2) = _
      rw [hlookup, hreach]
      rfl
    exact (h.of_bind_ok hclient).of_bind.1 rfl

theorem makes_storeEmail (h : ComesThrough refused master b (storeEmail row id body) kvs) :
    Makes refused master b (storeEmail row id body) kvs [⟨row, id, body⟩] := by
  refine Makes.one rfl (fun client result => Prog.Uses.ite (fun _ => trivial) fun _ => ?_)
    (fun client result => Prog.Total.ite trivial ?_)
    (congrArg Prod.snd (run_storeEmail master kvs row id body)) h
  · exact uses_appendToMetadata.bind fun _ => trivial
  · exact total_appendToMetadata.bind fun _ => trivial

theorem makes_store (h : ComesThrough refused master b (Smtp.store row id body) kvs) :
    Makes refused master b (Smtp.store row id body) kvs [⟨row, id, body⟩] :=
  Makes.one rfl (fun _ _ => uses_appendToMetadata) (fun _ _ => total_appendToMetadata)
    (congrArg Prod.snd (run_store master kvs row id body)) h

theorem makes_sendDeliveryFailure {sender recipient reason timestamp : Bytes}
    (h : ComesThrough refused master b
      (Smtp.sendDeliveryFailure sender recipient reason timestamp) kvs) :
    Makes refused master b (Smtp.sendDeliveryFailure sender recipient reason timestamp) kvs
      [failureNotice sender recipient reason timestamp] := by
  refine Makes.one rfl (fun client result => ?_) (fun client result => ?_)
    (congrArg Prod.snd (run_sendDeliveryFailure master kvs sender recipient reason timestamp)) h
  · exact (uses_clientGet _ _).bind fun _ => (uses_clientPut _ _ _).bind fun _ => trivial
  · exact (total_clientGet _ _).bind fun _ => (total_clientPut _ _ _).bind fun _ => trivial

theorem makes_sendMessage {env : Surroundings} {sender recipient subject body : Bytes}
    (h : ComesThrough refused master b (sendMessage env sender recipient subject body) kvs) :
    Makes refused master b (sendMessage env sender recipient subject body) kvs
      (formDeposits env sender recipient subject body) := by
  rw [sendMessage] at h ⊢
  rw [formDeposits]
  split_ifs at h ⊢ with hexternal
  · rw [Prog.pure_bind] at h ⊢
    exact (makes_storeEmail h.of_bind).bind fun _ _ _ => Makes.pure _
  · refine (makes_storeEmail h.of_bind).bind fun a t ht => ?_
    have hsent := h.of_bind_ok ht
    exact (makes_storeEmail hsent.of_bind).bind fun _ _ _ => Makes.pure _

theorem makes_calls {o : Smtp.Output} (h : ComesThrough refused master b o.calls kvs) :
    Makes refused master b o.calls kvs (outputDeposits o) := by
  cases o with
  | reply text => exact Makes.pure ()
  | deliver sender recipient subject timestamp body =>
    rw [Smtp.Output.calls] at h ⊢
    rw [outputDeposits, ← List.singleton_append]
    refine (makes_store h.of_bind).bind fun a t ht => ?_
    have hsent := h.of_bind_ok ht
    split_ifs at hsent ⊢ with hlocal
    · exact makes_store hsent
    · exact Makes.pure ()
  | relay recipient mxHost relayPort texts => exact Makes.pure ()
  | bounce sender recipient reason timestamp => exact makes_sendDeliveryFailure h

theorem makes_each_calls {out : List Smtp.Output}
    (h : ComesThrough refused master b (Prog.each Smtp.Output.calls out) kvs) :
    Makes refused master b (Prog.each Smtp.Output.calls out) kvs (out.flatMap outputDeposits) := by
  induction out generalizing kvs with
  | nil => exact Makes.pure ()
  | cons o out ih =>
    rw [Prog.each_cons] at h ⊢
    rw [List.flatMap_cons]
    exact (makes_calls h.of_bind).bind fun a t ht => ih (h.of_bind_ok ht)

/-- **Deposits are all that a mailbox sees of a delivery.** -/
theorem makes_handler {e : MailEvent} (he : ∀ username id folder, e ≠ .delete username id folder)
    (h : ComesThrough refused master b e.handler kvs) :
    Makes refused master b e.handler kvs e.deposits := by
  cases e with
  | send env postData =>
    have hsent := (makes_sendMessage h.of_bind).bind fun _ _ _ => Makes.pure ()
    rwa [List.append_nil] at hsent
  | endOfData x moment st => exact makes_each_calls h
  | delete username id folder => exact absurd rfl (he username id folder)

end Mailbox

variable (master : Master) (b : Bytes)

/-- The messages that an event deposits in the mailbox `b`, with their ids. -/
def stored (e : MailEvent) : List (Bytes × Bytes) :=
  if isErr (clientText (master b)) then []
  else (e.deposits.filter (·.row = b)).map fun d => (d.id, d.body)

/-- The messages that are in the mailbox after an event. -/
def remaining (live : List (Bytes × Bytes)) : MailEvent → List (Bytes × Bytes)
  | .delete username emailId folder =>
    if folderRow username folder = b then live.eraseP (·.1 = emailId) else live
  | e => live ++ e.stored master b

end MailEvent

/-! ### Histories -/

/-- The store, and the messages that were deposited in a mailbox and not deleted
since, with their ids. -/
structure MailHistory where
  /-- The rows. -/
  store : Tablet
  /-- The messages. -/
  live : List (Bytes × Bytes)

namespace MailHistory

variable (refused : Call → Status) (master : Master) (b : Bytes)

/-- An event. -/
def step (s : MailHistory) (e : MailEvent) : MailHistory :=
  ⟨(e.handler.run (Call.send refused master) s.store).2, e.remaining master b s.live⟩

/-- The page of a message. -/
def messagePage (username folder : Bytes) (m : Bytes × Bytes) : MailPage :=
  .email username folder m.1 (header m.1 "sender") (header m.1 "recipient") (header m.1 "subject")
    (header m.1 "timestamp") m.2

/-- **All messages can be read**: each has an entry of its own, and its body is shown
as it was sent. -/
structure Readable (s : MailHistory) : Prop where
  listed : listedIds (s.store.text b metaColumn) = s.live.map Prod.fst
  nodup : (s.live.map Prod.fst).Nodup
  shown : ∀ username folder, folderRow username folder = b → ∀ m ∈ s.live,
    ((viewEmail username m.1 folder).run (Call.send refused master) s.store).1 =
      .ok (messagePage username folder m)

/-- **An event keeps messages apart**: a message that is delivered has an id of its own
and without a comma, and a body that does not read as an error; what is deleted is not
the list. -/
def Apart (s : MailHistory) : MailEvent → Prop
  | .delete _ emailId _ => emailId ≠ metaColumn
  | e => ((s.live ++ e.stored master b).map Prod.fst).Nodup ∧
      ∀ m ∈ e.stored master b, 44 ∉ m.1 ∧ isErr m.2 = false

instance (s : MailHistory) : DecidablePred (s.Apart master b)
  | .delete _ _ _ => inferInstanceAs (Decidable (_ ≠ _))
  | .send _ _ => inferInstanceAs (Decidable (_ ∧ _))
  | .endOfData _ _ _ => inferInstanceAs (Decidable (_ ∧ _))

/-- **An event comes through**: so do the calls it makes about the mailbox. -/
def Delivered (s : MailHistory) (e : MailEvent) : Prop :=
  MailEvent.ComesThrough refused master b e.handler s.store

instance (s : MailHistory) (e : MailEvent) : Decidable (s.Delivered refused master b e) :=
  inferInstanceAs (Decidable (MailEvent.ComesThrough _ _ _ _ _))

/-! ### The invariant -/

/-- A message that the services take for what it is. -/
structure Plain (m : Bytes × Bytes) : Prop where
  isEmailId : IsEmailId m.1
  notMem_comma : 44 ∉ m.1
  isErr_body : isErr m.2 = false

/-- The store holds messages: they are listed and stored, and each is plain. -/
structure Holds (kvs : Tablet) (live : List (Bytes × Bytes)) : Prop where
  listed : listedIds (kvs.text b metaColumn) = live.map Prod.fst
  nodup : (live.map Prod.fst).Nodup
  stored : ∀ m ∈ live, kvs.cells (b, m.1) = some m.2
  plain : ∀ m ∈ live, Plain m
  reach : ∀ m ∈ live, isErr (clientText (master b)) = false

variable {refused master b} {kvs kvs' : Tablet} {live : List (Bytes × Bytes)}

/-- Other rows do not matter. -/
theorem Holds.congr (h : Holds master b kvs live)
    (hcells : ∀ column, kvs'.cells (b, column) = kvs.cells (b, column)) :
    Holds master b kvs' live where
  listed := (listedIds_text_congr (hcells metaColumn)).trans h.listed
  nodup := h.nodup
  stored m hm := (hcells m.1).trans (h.stored m hm)
  plain := h.plain
  reach := h.reach

/-- A deposit in another row. -/
theorem Holds.exec_of_ne (h : Holds master b kvs live) {d : Deposit} (hrow : d.row ≠ b) :
    Holds master b (d.exec master kvs) live :=
  h.congr (Deposit.cells_exec_of_ne master hrow)

/-- **A deposit in the mailbox**: one message more, and all that there were. -/
theorem Holds.exec_self (h : Holds master b kvs live) {id body : Bytes} (hplain : Plain (id, body))
    (hreach : isErr (clientText (master b)) = false) (hfresh : id ∉ live.map Prod.fst) :
    Holds master b (Deposit.exec master kvs ⟨b, id, body⟩) (live ++ [(id, body)]) := by
  have hexec : Deposit.exec master kvs ⟨b, id, body⟩ = withListed (kvs.put b id body) b id := by
    rw [Deposit.exec, hreach, if_neg Bool.false_ne_true]
  have hid : IsEmailId id := hplain.isEmailId
  have hmeta : (b, metaColumn) ≠ (b, id) := fun heq => hid.ne_metaColumn (Prod.mk.inj heq).2.symm
  rw [hexec]
  refine ⟨?_, ?_, fun m hm => ?_, fun m hm => ?_, fun _ _ => hreach⟩
  · have hcell : (withListed (kvs.put b id body) b id).cells (b, metaColumn) =
        some (appendedMeta ((kvs.put b id body).text b metaColumn) id) := by
      rw [withListed, Tablet.cells_put, Function.update_self]
    have hold : (kvs.put b id body).cells (b, metaColumn) = kvs.cells (b, metaColumn) := by
      rw [Tablet.cells_put, Function.update_of_ne hmeta]
    rw [Tablet.text_of_some hcell, hid.listedIds_appendedMeta hplain.notMem_comma,
      listedIds_text_congr hold, h.listed, List.map_append]
    rfl
  · rw [List.map_append, List.map_singleton]
    exact h.nodup.append (List.nodup_singleton id) (List.disjoint_singleton.mpr hfresh)
  · rcases List.mem_append.mp hm with hold | hnew
    · have hne : m.1 ≠ id := fun heq => hfresh (heq ▸ List.mem_map_of_mem hold)
      have hother := (h.plain m hold).isEmailId.ne_metaColumn
      rw [Deposit.cells_withListed_of_ne fun heq => hother (Prod.mk.inj heq).2, Tablet.cells_put,
        Function.update_of_ne fun heq => hne (Prod.mk.inj heq).2]
      exact h.stored m hold
    · obtain rfl := List.mem_singleton.mp hnew
      rw [Deposit.cells_withListed_of_ne hmeta.symm, Tablet.cells_put, Function.update_self]
  · rcases List.mem_append.mp hm with hold | hnew
    · exact h.plain m hold
    · obtain rfl := List.mem_singleton.mp hnew
      exact hplain

/-- **The deposits of a delivery**, one after another. -/
theorem Holds.deposits (h : Holds master b kvs live)
    (hreach : isErr (clientText (master b)) = false) {ds : List Deposit}
    (hnodup : ((live ++ (ds.filter (·.row = b)).map fun d => (d.id, d.body)).map Prod.fst).Nodup)
    (hplain : ∀ d ∈ ds, d.row = b → Plain (d.id, d.body)) :
    Holds master b (ds.foldl (Deposit.exec master) kvs)
      (live ++ (ds.filter (·.row = b)).map fun d => (d.id, d.body)) := by
  induction ds generalizing kvs live with
  | nil => simpa using h
  | cons d ds ih =>
    have hrest := fun d' hd' => hplain d' (List.mem_cons_of_mem d hd')
    by_cases hrow : d.row = b
    · have hlist : live ++ ((d :: ds).filter (·.row = b)).map (fun d => (d.id, d.body)) =
          (live ++ [(d.id, d.body)]) ++ (ds.filter (·.row = b)).map fun d => (d.id, d.body) := by
        simp [hrow]
      rw [hlist] at hnodup ⊢
      have hfresh : d.id ∉ live.map Prod.fst := by
        intro hmem
        rw [List.append_assoc, List.map_append] at hnodup
        exact (List.nodup_append.mp hnodup).2.2 _ hmem _ (by simp) rfl
      have hd : Holds master b (d.exec master kvs) (live ++ [(d.id, d.body)]) := by
        obtain ⟨row, id, body⟩ := d
        obtain rfl := hrow
        exact h.exec_self (hplain _ List.mem_cons_self rfl) hreach hfresh
      exact ih hd hnodup hrest
    · have hfilter : (d :: ds).filter (·.row = b) = ds.filter (·.row = b) := by simp [hrow]
      rw [hfilter] at hnodup ⊢
      exact ih (h.exec_of_ne hrow) hnodup hrest

/-- Nothing reaches a mailbox the master does not know. -/
theorem Holds.deposits_of_isErr (h : Holds master b kvs live)
    (hreach : isErr (clientText (master b)) = true) (ds : List Deposit) :
    Holds master b (ds.foldl (Deposit.exec master) kvs) live := by
  induction ds generalizing kvs with
  | nil => exact h
  | cons d ds ih =>
    refine ih ?_
    by_cases hrow : d.row = b
    · rw [Deposit.exec, hrow, if_pos hreach]
      exact h
    · exact h.exec_of_ne hrow

theorem isEmailId_of_mem_formDeposits {env : Surroundings} {sender recipient subject body : Bytes}
    {d : Deposit} (h : d ∈ MailEvent.formDeposits env sender recipient subject body) :
    IsEmailId d.id := by
  have hid : d.id = emailId sender recipient subject env.timestamp := by
    rcases List.mem_append.mp h with hinbox | hsent
    · split_ifs at hinbox with hexternal
      · cases hinbox
      · rw [List.mem_singleton.mp hinbox]
    · rw [List.mem_singleton.mp hsent]
  rw [hid]
  exact isEmailId_emailId sender recipient subject env.timestamp

theorem isEmailId_of_mem_outputDeposits {o : Smtp.Output} {d : Deposit}
    (h : d ∈ MailEvent.outputDeposits o) : IsEmailId d.id := by
  cases o with
  | reply text => cases h
  | deliver sender recipient subject timestamp body =>
    have hid : d.id = emailId sender recipient subject timestamp := by
      rcases List.mem_cons.mp h with hinbox | hsent
      · rw [hinbox]
      · split_ifs at hsent with hlocal
        · rw [List.mem_singleton.mp hsent]
        · cases hsent
    rw [hid]
    exact isEmailId_emailId sender recipient subject timestamp
  | relay recipient mxHost relayPort texts => cases h
  | bounce sender recipient reason timestamp =>
    have hid : d.id = emailId (ascii "mailer-daemon@localhost") sender
        (ascii "Delivery Failed to " ++ recipient) timestamp := by
      rw [MailEvent.outputDeposits, List.mem_singleton] at h
      rw [h, failureNotice]
    rw [hid]
    exact isEmailId_emailId _ sender _ timestamp

/-- What is deposited has the id of a message. -/
theorem isEmailId_of_mem_deposits {e : MailEvent} {d : Deposit} (h : d ∈ e.deposits) :
    IsEmailId d.id := by
  cases e with
  | send env postData => exact isEmailId_of_mem_formDeposits h
  | endOfData x moment st =>
    obtain ⟨o, -, ho⟩ := List.mem_flatMap.mp h
    exact isEmailId_of_mem_outputDeposits ho
  | delete username id folder => cases h

/-- **A delivery.** -/
theorem Holds.deliver (h : Holds master b kvs live) {e : MailEvent}
    (he : ∀ username id folder, e ≠ .delete username id folder)
    (hthrough : MailEvent.ComesThrough refused master b e.handler kvs)
    (hnodup : ((live ++ e.stored master b).map Prod.fst).Nodup)
    (hplain : ∀ m ∈ e.stored master b, 44 ∉ m.1 ∧ isErr m.2 = false) :
    Holds master b (e.handler.run (Call.send refused master) kvs).2
      (live ++ e.stored master b) := by
  refine Holds.congr ?_ (MailEvent.makes_handler he hthrough).agree
  rw [MailEvent.stored] at hnodup hplain ⊢
  split_ifs at hnodup hplain ⊢ with hreach
  · rw [List.append_nil]
    exact h.deposits_of_isErr hreach e.deposits
  · refine h.deposits (by simpa using hreach) hnodup fun d hd hrow => ?_
    obtain ⟨hcomma, hbody⟩ := hplain (d.id, d.body)
      (List.mem_map_of_mem (List.mem_filter.mpr ⟨hd, decide_eq_true hrow⟩))
    exact ⟨isEmailId_of_mem_deposits hd, hcomma, hbody⟩

/-! ### Deletions -/

/-- The rows with an id less on a list. -/
def withoutListed (kvs : Tablet) (row id : Bytes) : Tablet :=
  if isErr (kvs.text row metaColumn) then kvs
  else kvs.put row metaColumn
    ([44].intercalate ((metaIds (kvs.text row metaColumn)).filter (· ≠ id)))

theorem run_removeFromMetadata {row : Bytes} (id : Bytes)
    (hreach : isErr (clientText (master row)) = false) :
    (removeFromMetadata row id).run (Call.exec master) kvs =
      (.ok (), withoutListed kvs row id) := by
  rw [removeFromMetadata, run_getWorkerClient_bind, hreach, withoutListed]
  show (if isErr (kvs.text row metaColumn) then _ else _ : Handler Unit).run _ _ = _
  split_ifs with herr
  · rfl
  · rfl

theorem run_deleteEmail (username id folder : Bytes) :
    ∃ page, (deleteEmail username id folder).run (Call.exec master) kvs = (.ok page,
      if isErr (clientText (master (folderRow username folder))) then kvs
      else withoutListed (kvs.delete (folderRow username folder) id) (folderRow username folder)
        id) := by
  rw [deleteEmail, run_getWorkerClient_bind]
  cases hreach : isErr (clientText (master (folderRow username folder))) with
  | true => exact ⟨_, rfl⟩
  | false =>
    simp only [clientDelete, Bool.not_false, if_true, run_Delete_bind, isErr_delete_successful,
      Bool.false_eq_true, if_false]
    exact ⟨_, Prog.run_bind_of_ok (Call.exec master) (run_removeFromMetadata id hreach)⟩

/-- With different ids, to remove the first message with an id is to remove all. -/
theorem eraseP_eq_filter {id : Bytes} (hnodup : (live.map Prod.fst).Nodup) :
    live.eraseP (·.1 = id) = live.filter (·.1 ≠ id) := by
  induction live with
  | nil => rfl
  | cons m live ih =>
    obtain ⟨hm, hlive⟩ := List.nodup_cons.mp hnodup
    by_cases hid : m.1 = id
    · have hnone : ∀ m' ∈ live, m'.1 ≠ id := by
        intro m' hm' heq
        exact hm (hid ▸ heq ▸ List.mem_map_of_mem hm')
      rw [List.eraseP_cons_of_pos (by simpa using hid),
        List.filter_cons_of_neg (by simpa using hid)]
      exact (List.filter_eq_self.mpr (by simpa using hnone)).symm
    · rw [List.eraseP_cons_of_neg (by simpa using hid),
        List.filter_cons_of_pos (by simpa using hid),
        ih hlive]

/-- **A deletion**: the message is gone, and all others are there. -/
theorem Holds.delete (h : Holds master b kvs live) {id : Bytes} (hid : id ≠ metaColumn) :
    Holds master b (withoutListed (kvs.delete b id) b id) (live.eraseP (·.1 = id)) := by
  rw [eraseP_eq_filter h.nodup]
  have hmeta : (kvs.delete b id).cells (b, metaColumn) = kvs.cells (b, metaColumn) := by
    rw [Tablet.cells_delete, Function.update_of_ne fun heq => hid (Prod.mk.inj heq).2.symm]
  have hids : listedIds ((kvs.delete b id).text b metaColumn) = live.map Prod.fst :=
    (listedIds_text_congr hmeta).trans h.listed
  have hsub : ∀ m ∈ live.filter (·.1 ≠ id), m ∈ live := fun m hm => (List.mem_filter.mp hm).1
  have hcells : ∀ m ∈ live.filter (·.1 ≠ id),
      (withoutListed (kvs.delete b id) b id).cells (b, m.1) = some m.2 := by
    intro m hm
    obtain ⟨hlive, hne⟩ : m ∈ live ∧ m.1 ≠ id := by simpa using hm
    have hkept : (kvs.delete b id).cells (b, m.1) = some m.2 := by
      rw [Tablet.cells_delete, Function.update_of_ne fun heq => hne (Prod.mk.inj heq).2]
      exact h.stored m hlive
    rw [withoutListed]
    split_ifs with herr
    · exact hkept
    · have hother := (h.plain m hlive).isEmailId.ne_metaColumn
      rw [Tablet.cells_put, Function.update_of_ne fun heq => hother (Prod.mk.inj heq).2, hkept]
  refine ⟨?_, h.nodup.sublist ((List.filter_sublist).map Prod.fst), hcells,
    fun m hm => h.plain m (hsub m hm), fun m hm => h.reach m (hsub m hm)⟩
  rw [withoutListed]
  split_ifs with herr
  · rw [listedIds, if_pos herr] at hids ⊢
    have hnil : live = [] := List.map_eq_nil_iff.mp hids.symm
    rw [hnil]
    rfl
  · rw [listedIds, if_neg herr] at hids
    have hcell := Tablet.cells_put (kvs.delete b id) b metaColumn
      ([44].intercalate ((metaIds ((kvs.delete b id).text b metaColumn)).filter (· ≠ id)))
    rw [Tablet.text_of_some (by rw [hcell, Function.update_self]), hids, List.filter_map]
    refine listedIds_intercalate fun e he => ?_
    obtain ⟨m, hm, rfl⟩ := List.mem_map.mp he
    have hplain := h.plain m (hsub m hm)
    exact ⟨hplain.isEmailId, hplain.notMem_comma⟩

theorem uses_deleteEmail (username id folder : Bytes) :
    (deleteEmail username id folder).Uses fun c => c.about = folderRow username folder := by
  refine ⟨rfl, fun _ => (MailEvent.uses_clientDelete _ _).bind fun _ => ?_⟩
  refine Prog.Uses.ite (fun _ => trivial) fun _ => Prog.Uses.bind ?_ fun _ => trivial
  refine ⟨rfl, fun _ => (MailEvent.uses_clientGet _ _).bind fun _ => ?_⟩
  exact Prog.Uses.ite (fun _ => trivial) fun _ => (MailEvent.uses_clientPut _ _ _).bind fun _ =>
    trivial

/-! ### One event, and all -/

theorem live_step_delete (s : MailHistory) (username id folder : Bytes) :
    (s.step refused master b (.delete username id folder)).live =
      if folderRow username folder = b then s.live.eraseP (·.1 = id) else s.live := rfl

/-- **An event that keeps messages apart keeps them all**, when it comes through. -/
theorem Holds.step {s : MailHistory} (h : Holds master b s.store s.live) {e : MailEvent}
    (he : s.Apart master b e) (hthrough : s.Delivered refused master b e) :
    Holds master b (s.step refused master b e).store (s.step refused master b e).live := by
  cases e with
  | send env postData => exact h.deliver (by simp) hthrough he.1 he.2
  | endOfData x moment st => exact h.deliver (by simp) hthrough he.1 he.2
  | delete username id folder =>
    have huses := uses_deleteEmail username id folder
    have hhandler : (MailEvent.delete username id folder).handler.Uses fun c =>
      c.about = folderRow username folder := huses.bind fun _ => trivial
    rw [live_step_delete]
    rcases eq_or_ne (folderRow username folder) b with rfl | hrow
    · obtain ⟨page, hpage⟩ : ∃ page, (deleteEmail username id folder).run (Call.exec master)
          s.store = (.ok page, _) := run_deleteEmail username id folder
      have hrun : (s.step refused master (folderRow username folder)
          (.delete username id folder)).store = _ :=
        (congrArg Prod.snd (Call.run_send_of_deliveredTo hhandler hthrough)).trans
          (congrArg Prod.snd (Prog.run_bind_of_ok (Call.exec master) hpage))
      rw [hrun, if_pos rfl]
      split_ifs with hreach
      · -- there is nothing in a mailbox that cannot be reached
        have hnil : s.live = [] := by
          refine List.eq_nil_iff_forall_not_mem.mpr fun m hm => ?_
          exact absurd (hreach.symm.trans (h.reach m hm)) (by simp)
        rw [hnil] at h ⊢
        exact h
      · exact h.delete he
    · rw [if_neg hrow]
      exact h.congr (Call.cells_run_send_of_ne hhandler hrow)

/-- The bodies of the messages came through. -/
def BodiesDelivered (b : Bytes) (live : List (Bytes × Bytes)) : Prop :=
  ∀ m ∈ live, (Call.update (.put b m.1 m.2)).delivered ∅ = true

theorem BodiesDelivered.append {ms : List (Bytes × Bytes)} (h : BodiesDelivered b live)
    (hms : BodiesDelivered b ms) : BodiesDelivered b (live ++ ms) := by
  intro m hm
  rcases List.mem_append.mp hm with hm | hm
  · exact h m hm
  · exact hms m hm

theorem bodiesDelivered_stored {e : MailEvent} {kvs : Tablet}
    (he : ∀ username id folder, e ≠ .delete username id folder)
    (h : MailEvent.ComesThrough refused master b e.handler kvs) :
    BodiesDelivered b (e.stored master b) := by
  intro m hm
  rw [MailEvent.stored] at hm
  split_ifs at hm with hreach
  · cases hm
  · obtain ⟨d, hd, rfl⟩ := List.mem_map.mp hm
    obtain ⟨hmem, hrow⟩ := List.mem_filter.mp hd
    obtain rfl : d.row = b := of_decide_eq_true hrow
    exact (MailEvent.makes_handler he h).delivered d hmem rfl (by simpa using hreach)

theorem BodiesDelivered.step {s : MailHistory} (h : BodiesDelivered b s.live) {e : MailEvent}
    (he : s.Delivered refused master b e) :
    BodiesDelivered b (s.step refused master b e).live := by
  cases e with
  | send env postData => exact h.append (bodiesDelivered_stored (by simp) he)
  | endOfData x moment st => exact h.append (bodiesDelivered_stored (by simp) he)
  | delete username id folder =>
    rw [live_step_delete]
    split_ifs with hrow
    · exact fun m hm => h m (List.eraseP_subset hm)
    · exact h

theorem folderRow_ne_nil (username folder : Bytes) : folderRow username folder ≠ [] := by
  rw [folderRow]
  split_ifs
  · exact fun h => absurd (List.append_eq_nil_iff.mp h).1 (by decide)
  · exact fun h => absurd (List.append_eq_nil_iff.mp h).1 (by decide)

/-- What the store holds can be read. -/
theorem Holds.readable {s : MailHistory} (h : Holds master b s.store s.live)
    (hbodies : BodiesDelivered b s.live) : s.Readable refused master b where
  listed := h.listed
  nodup := h.nodup
  shown username folder hrow m hm := by
    obtain rfl := hrow
    have hstored := h.stored m hm
    have hbody : s.store.text (folderRow username folder) m.1 = m.2 := Tablet.text_of_some hstored
    have hput := hbodies m hm
    have hclient := run_getWorkerClient master s.store (folderRow username folder) (h.reach m hm)
    have hmeets : (viewEmail username m.1 folder).Meets (Call.exec master)
        (fun c kvs => c.delivered kvs = true) s.store := by
      refine Prog.Meets.bind_of_ok ⟨Call.delivered_lookup_of_put hput, trivial⟩ hclient ?_
      refine ⟨Call.delivered_get_of_put (folderRow_ne_nil username folder) hput hstored, ?_⟩
      show Prog.Meets _ _ (if isErr _ then _ else _) _
      split_ifs
      · exact trivial
      · exact trivial
    rw [Call.run_send hmeets, viewEmail, Prog.run_bind_of_ok _ hclient]
    simp only [clientGet, if_true, run_Get_bind, hbody, (h.plain m hm).isErr_body,
      Bool.false_eq_true, if_false]
    rfl

end MailHistory

/-- **Every message that is delivered can be read**, until it is deleted, in every
history whose events keep messages apart and come through. -/
theorem mail_readable {refused : Call → Status} {master : Master} {b : Bytes} {kvs : Tablet}
    {s : MailHistory} (hempty : listedIds (kvs.text b metaColumn) = [])
    (h : Runs.Reaches (MailHistory.step refused master b)
      (fun s e => s.Apart master b e ∧ s.Delivered refused master b e) ⟨kvs, []⟩ s) :
    s.Readable refused master b := by
  have hstart : MailHistory.Holds master b kvs [] :=
    ⟨hempty, List.nodup_nil, by simp, by simp, by simp⟩
  have hholds : MailHistory.Holds master b s.store s.live ∧
      MailHistory.BodiesDelivered b s.live :=
    h.invariant (P := fun t => MailHistory.Holds master b t.store t.live ∧
        MailHistory.BodiesDelivered b t.live) ⟨hstart, fun m hm => absurd hm List.not_mem_nil⟩
      fun t e ht he => ⟨ht.1.step he.1 he.2, ht.2.step he.2⟩
  exact hholds.1.readable hholds.2

/-! ### Two messages -/

/-- A form of which the subject and the body are given. -/
def formAbout (subject body : String) : Bytes :=
  ascii "username=ann@localhost&to=bob@localhost&subject=" ++ ascii subject ++ ascii "&body=" ++
    ascii body

/-- A form that is sent at a fixed second. -/
def sentAtTen (subject body : String) : MailEvent :=
  .send ⟨ascii "2025-05-01 10:00:00", true⟩ (formAbout subject body)

/-- Two messages about different things, of which one is deleted. -/
theorem readable_after_delete : MailHistory.Readable refusedInternal Master.first
    (inboxRow (ascii "bob@localhost"))
    ([sentAtTen "x" "one", sentAtTen "y" "two", .delete (ascii "bob@localhost")
        (emailId (ascii "ann@localhost") (ascii "bob@localhost") (ascii "x")
          (ascii "2025-05-01 10:00:00")) (ascii "inbox")].foldl
      (MailHistory.step refusedInternal Master.first (inboxRow (ascii "bob@localhost")))
        ⟨∅, []⟩) := by
  refine mail_readable (by decide +kernel) (Runs.Reaches.of_along ?_)
  decide +kernel

/-- **A message is overwritten** by another one of the same second, with the same
subject: there are two messages, and one body. -/
theorem mail_overwritten : ∃ s : MailHistory,
    Runs.Reaches (MailHistory.step refusedInternal Master.first (inboxRow (ascii "bob@localhost")))
      (fun _ _ => True) ⟨∅, []⟩ s ∧
    s.live.map Prod.snd = [ascii "one", ascii "two"] ∧
    (∃ m ∈ s.live, ((viewEmail (ascii "bob@localhost") m.1 (ascii "inbox")).run
      (Call.send refusedInternal Master.first) s.store).1 ≠
        .ok (MailHistory.messagePage (ascii "bob@localhost") (ascii "inbox") m)) ∧
    ¬s.Readable refusedInternal Master.first (inboxRow (ascii "bob@localhost")) := by
  refine ⟨_, Runs.Reaches.foldl [sentAtTen "x" "one", sentAtTen "x" "two"] (fun _ _ _ => trivial) _,
    by decide +kernel, by decide +kernel, fun h => ?_⟩
  have hnodup := h.nodup
  revert hnodup
  decide +kernel

end PennCloud
