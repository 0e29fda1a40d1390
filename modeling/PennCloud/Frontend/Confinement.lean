import PennCloud.Frontend.Server
import PennCloud.Frontend.Mail.Smtp

/-!
# Where the services work

Each service keeps to rows of its own. The methods of the storage service work on the one row
that is named after the user they are called for, `<user>-storage`; the web mail and the mail
server on rows that begin with `inbox_email:` or `sent_email:`, whatever addresses they are
given; and the sessions are in the row `session-ids`, of which `rand()` and the cookies name
the columns. None of it depends on the replies of the store.

* `PennCloud.onRow_storageBranch` – the storage service;
* `PennCloud.onMailRow_handleRequest`, `PennCloud.onMailRow_calls` – the mail;
* `PennCloud.MailRow`, `PennCloud.not_mailRow_sessionRow` – which rows are a mailbox, and that
  the row of the sessions is none.

A mailbox can be the row of a user all the same: `inbox_email:x-storage` is the mailbox of
`x-storage` and the files of the user `inbox_email:x`. Users whose names do not begin like that
have their rows to themselves (`PennCloud.not_mailRow_storageRow`).
-/

namespace PennCloud

open Wire Calls Text

/-! ### Calls on certain rows -/

/-- A call to the master, or on a row for which `R` holds. -/
def Call.On (R : Bytes → Prop) : Call → Prop
  | .lookup _ => True
  | .get row _ => R row
  | .update u => R u.row

/-- **A program that works on certain rows only**, whatever the replies. -/
def OnRows (R : Bytes → Prop) {α : Type} (p : Handler α) : Prop := p.Uses (Call.On R)

namespace OnRows

variable {R : Bytes → Prop} {α β : Type}

theorem pure (a : α) : OnRows R (Pure.pure a : Handler α) := trivial

theorem fail (e : Abort) : OnRows R (.fail e : Handler α) := trivial

theorem lookup {key : Bytes} {f : Bytes → Handler α} (hf : ∀ t, OnRows R (f t)) :
    OnRows R (PennCloud.lookup key >>= f) := ⟨trivial, hf⟩

theorem get {row c : Bytes} {f : Bytes → Handler α} (h : R row) (hf : ∀ t, OnRows R (f t)) :
    OnRows R (Get row c >>= f) := ⟨h, hf⟩

theorem put {row c v : Bytes} {f : Bytes → Handler α} (h : R row) (hf : ∀ t, OnRows R (f t)) :
    OnRows R (Put row c v >>= f) := ⟨h, hf⟩

theorem cput {row c v w : Bytes} {f : Bytes → Handler α} (h : R row) (hf : ∀ t, OnRows R (f t)) :
    OnRows R (CPut row c v w >>= f) := ⟨h, hf⟩

theorem delete {row c : Bytes} {f : Bytes → Handler α} (h : R row) (hf : ∀ t, OnRows R (f t)) :
    OnRows R (Delete row c >>= f) := ⟨h, hf⟩

theorem bind {p : Handler α} {f : α → Handler β} (hp : OnRows R p) (hf : ∀ a, OnRows R (f a)) :
    OnRows R (p >>= f) := Prog.Uses.bind hp hf

theorem ite {p : Prop} [Decidable p] {x y : Handler α} (hx : OnRows R x) (hy : OnRows R y) :
    OnRows R (if p then x else y) := by
  split_ifs with h
  · exact hx
  · exact hy

theorem each {γ : Type} {f : γ → Handler Unit} {xs : List γ} (hf : ∀ x ∈ xs, OnRows R (f x)) :
    OnRows R (Prog.each f xs) := Prog.Uses.each hf

end OnRows

/-- The rest of a body is read from the client, not from the store. -/
theorem uses_readRequestBody {allowed : Call → Prop} (received : List Bytes) (request : Bytes) :
    (readRequestBody received request).Uses allowed := by
  have hlen : (contentLength request).Uses allowed := by
    rw [contentLength]
    split
    · exact trivial
    · dsimp only
      split_ifs <;> exact trivial
  exact hlen.bind fun _ => trivial

/-! ### The storage -/

section Storage

variable {b : Bytes}

/-- The one row. -/
abbrev OnRow (b : Bytes) {α : Type} (p : Handler α) : Prop := OnRows (· = b) p

theorem onRow_moveChunks (old new : Bytes) (chunks : List Bytes) :
    OnRow b (moveChunks b old new chunks) := by
  induction chunks with
  | nil => exact OnRows.pure []
  | cons chunk chunks ih =>
    refine OnRows.ite (OnRows.fail _) (OnRows.get rfl fun _ => OnRows.put rfl fun _ => ?_)
    exact OnRows.delete rfl fun _ => ih.bind fun _ => OnRows.pure _

theorem onRow_relocateFile (old new : Bytes) : OnRow b (relocateFile b old new) := by
  have hcontent : OnRow b (moveContent b old new) := by
    refine OnRows.get rfl fun fileMeta => OnRows.ite ?_ ?_
    · refine (onRow_moveChunks old new _).bind fun _ => OnRows.put rfl fun _ => ?_
      exact OnRows.delete rfl fun _ => OnRows.pure ()
    · refine OnRows.get rfl fun _ => OnRows.put rfl fun _ => ?_
      exact OnRows.delete rfl fun _ => OnRows.pure ()
  exact hcontent.bind fun _ => OnRows.put rfl fun _ => OnRows.delete rfl fun _ => OnRows.pure ()

theorem onRow_deleteRec (fuel : ℕ) (absPath : Bytes) : OnRow b (deleteRec b fuel absPath) := by
  have hchunks : ∀ p, OnRow b (deleteChunks b p) := by
    intro p
    refine OnRows.get rfl fun fileMeta => OnRows.ite ?_ (OnRows.pure ())
    refine OnRows.bind (OnRows.each fun chunk _ => ?_) fun _ => ?_
    · exact OnRows.delete rfl fun _ => OnRows.pure ()
    · exact OnRows.delete rfl fun _ => OnRows.pure ()
  induction fuel generalizing absPath with
  | zero => exact OnRows.fail _
  | succ fuel ih =>
    refine OnRows.get rfl fun marker => OnRows.ite ?_ ?_
    · refine (hchunks absPath).bind fun _ => OnRows.delete rfl fun _ => ?_
      exact OnRows.delete rfl fun _ => OnRows.pure ()
    · refine OnRows.put rfl fun _ => OnRows.get rfl fun children => OnRows.delete rfl fun _ => ?_
      exact OnRows.ite (OnRows.each fun child _ => ih child) (OnRows.pure ())

theorem onRow_renameFolderRec (fuel : ℕ) (old new : Bytes) :
    OnRow b (renameFolderRec b fuel old new) := by
  induction fuel generalizing old new with
  | zero => exact OnRows.fail _
  | succ fuel ih =>
    refine OnRows.get rfl fun folderMeta => OnRows.put rfl fun _ => OnRows.put rfl fun _ => ?_
    refine OnRows.put rfl fun _ => OnRows.delete rfl fun _ => OnRows.each fun child _ => ?_
    exact OnRows.get rfl fun val => OnRows.ite (ih _ _) (onRow_relocateFile _ _)

theorem onRow_renameFolderMoveRec (fuel : ℕ) (old new : Bytes) :
    OnRow b (renameFolderMoveRec b fuel old new) := by
  induction fuel generalizing old new with
  | zero => exact OnRows.fail _
  | succ fuel ih =>
    refine OnRows.get rfl fun folderMeta => OnRows.put rfl fun _ => OnRows.put rfl fun _ => ?_
    refine OnRows.put rfl fun _ => OnRows.delete rfl fun _ => OnRows.each fun child _ => ?_
    refine OnRows.get rfl fun val => OnRows.ite (ih _ _) (OnRows.ite ?_ (OnRows.pure ()))
    exact onRow_relocateFile _ _

theorem onRow_freeTarget (folder base ext : Bytes) (fuel suffix : ℕ) (path : Bytes) :
    OnRow b (freeTarget b folder base ext fuel suffix path) := by
  induction fuel generalizing suffix path with
  | zero => exact OnRows.fail _
  | succ fuel ih => exact OnRows.get rfl fun _ => OnRows.ite (ih _ _) (OnRows.pure _)

theorem onRow_removeEntry (folder entry : Bytes) : OnRow b (removeEntry b folder entry) := by
  refine OnRows.get rfl fun srcMeta => OnRows.ite ?_ ?_
  · exact OnRows.delete rfl fun _ => OnRows.pure ()
  · exact OnRows.put rfl fun _ => OnRows.pure ()

theorem onRow_moveFile (fuel : ℕ) (old folder : Bytes) : OnRow b (moveFile b fuel old folder) := by
  refine (onRow_freeTarget _ _ _ _ _ _).bind fun new => (onRow_relocateFile _ _).bind fun _ => ?_
  refine OnRows.get rfl fun _ => OnRows.put rfl fun _ => ?_
  exact (onRow_removeEntry _ _).bind fun _ => OnRows.pure new

theorem onRow_moveFolder (fuel : ℕ) (old parent : Bytes) :
    OnRow b (moveFolder b fuel old parent) := by
  refine (onRow_renameFolderMoveRec _ _ _).bind fun _ => OnRows.get rfl fun _ => ?_
  exact OnRows.put rfl fun _ => onRow_removeEntry _ _

theorem onRow_onWorker {h : Handler Answer} (hh : OnRow b h) : OnRow b (onWorker b h) :=
  OnRows.lookup fun _ => OnRows.ite (OnRows.pure _) hh

theorem onRow_webStorageList (folder : Bytes) : OnRow b (webStorageList b folder) := by
  have hitems : ∀ entries, OnRow b (listItems b folder entries) := by
    intro entries
    induction entries with
    | nil => exact OnRows.pure []
    | cons e es ih =>
      refine OnRows.ite ih (OnRows.get rfl fun _ => ih.bind fun items => ?_)
      exact OnRows.ite (OnRows.pure _) (OnRows.ite (OnRows.pure _) (OnRows.pure _))
  have hpage : ∀ metadata, OnRow b (listPage b folder metadata) := fun metadata =>
    OnRows.ite (OnRows.pure _) ((hitems _).bind fun _ => OnRows.pure _)
  refine onRow_onWorker (OnRows.get rfl fun metadata => OnRows.bind ?_ fun _ => ?_)
  · exact OnRows.ite (OnRows.put rfl fun _ => OnRows.pure ()) (OnRows.pure ())
  · exact OnRows.ite (hpage _) (OnRows.get rfl fun _ => OnRows.ite (OnRows.pure _) (hpage _))

theorem onRow_webStorageUpload (fuel : ℕ) (folder filename fileData : Bytes) :
    OnRow b (webStorageUpload b fuel folder filename fileData) := by
  have hchunks : ∀ path rounds i rest, OnRow b (storeChunks b path rounds i rest) := by
    intro path rounds
    induction rounds with
    | zero => exact fun i rest => OnRows.pure ()
    | succ rounds ih =>
      refine fun i rest => OnRows.ite (OnRows.pure ()) (OnRows.get rfl fun _ => ?_)
      exact OnRows.put rfl fun _ => OnRows.put rfl fun _ => ih _ _
  have hstore : ∀ name path, OnRow b (storeUpload b folder name path fileData) := by
    refine fun name path => OnRows.put rfl fun _ => (hchunks _ _ _ _).bind fun _ => ?_
    exact OnRows.get rfl fun _ => OnRows.cput rfl fun _ => OnRows.pure _
  have hfree : ∀ path rounds i, OnRow b (freeUpload b path rounds i) := by
    intro path rounds
    induction rounds with
    | zero => exact fun i => OnRows.fail _
    | succ rounds ih =>
      refine fun i => OnRows.ite (OnRows.fail _) (OnRows.get rfl fun _ => ?_)
      exact OnRows.ite (ih _) (OnRows.pure _)
  refine onRow_onWorker (OnRows.ite (OnRows.pure _) (OnRows.get rfl fun _ => OnRows.ite ?_ ?_))
  · exact (hfree _ _ _).bind fun _ => hstore _ _
  · exact hstore _ _

theorem onRow_webStorageCreateFolder (parent name : Bytes) :
    OnRow b (webStorageCreateFolder b parent name) := by
  have hmake : ∀ path, OnRow b (makeFolder b parent name path) := fun path =>
    OnRows.put rfl fun _ => OnRows.put rfl fun _ => OnRows.pure _
  refine onRow_onWorker (OnRows.ite (OnRows.pure _) (OnRows.get rfl fun _ => ?_))
  refine OnRows.ite (OnRows.pure _) (OnRows.get rfl fun _ => OnRows.ite (hmake _) ?_)
  exact OnRows.put rfl fun _ => hmake _

theorem onRow_webStorageDelete (fuel : ℕ) (absPath : Bytes) :
    OnRow b (webStorageDelete b fuel absPath) := by
  refine onRow_onWorker (OnRows.get rfl fun _ => OnRows.put rfl fun _ => ?_)
  exact (onRow_deleteRec fuel absPath).bind fun _ => OnRows.get rfl fun _ => OnRows.pure _

theorem onRow_webStorageRenameFile (folder old new : Bytes) :
    OnRow b (webStorageRenameFile b folder old new) := by
  refine onRow_onWorker (OnRows.ite (OnRows.pure _) (OnRows.get rfl fun _ => ?_))
  refine OnRows.ite (OnRows.pure _) ((onRow_relocateFile _ _).bind fun _ => ?_)
  exact OnRows.get rfl fun _ => OnRows.put rfl fun _ => OnRows.pure _

theorem onRow_webStorageRenameFolder (fuel : ℕ) (path new : Bytes) :
    OnRow b (webStorageRenameFolder b fuel path new) := by
  refine onRow_onWorker (OnRows.ite (OnRows.pure _) (OnRows.get rfl fun _ => ?_))
  refine OnRows.ite (OnRows.pure _) (OnRows.get rfl fun _ => OnRows.put rfl fun _ => ?_)
  exact (onRow_renameFolderRec _ _ _).bind fun _ => OnRows.pure _

theorem onRow_webStorageMoveFile (fuel : ℕ) (source filename target : Bytes) :
    OnRow b (webStorageMoveFile b fuel source filename target) :=
  onRow_onWorker (OnRows.ite (OnRows.pure _) ((onRow_moveFile _ _ _).bind fun _ => OnRows.pure _))

theorem onRow_webStorageMoveFolder (fuel : ℕ) (source target : Bytes) :
    OnRow b (webStorageMoveFolder b fuel source target) := by
  refine onRow_onWorker (OnRows.ite (OnRows.pure _) (OnRows.get rfl fun _ => ?_))
  refine OnRows.ite (OnRows.pure _) (OnRows.ite (OnRows.pure _) ?_)
  exact (onRow_moveFolder _ _ _).bind fun _ => OnRows.pure _

theorem onRow_webStorageDownload (folder filename : Bytes) :
    OnRow b (webStorageDownload b folder filename) := by
  have hcontents : ∀ files, OnRow b (chunkContents b files) := by
    intro files
    induction files with
    | nil => exact OnRows.pure []
    | cons file files ih => exact OnRows.get rfl fun _ => ih.bind fun _ => OnRows.pure _
  refine OnRows.lookup fun _ => OnRows.ite (OnRows.pure _) (OnRows.get rfl fun _ => ?_)
  exact (hcontents _).bind fun _ => OnRows.ite (OnRows.pure _) (OnRows.pure _)

theorem onRow_moveTargets (folder : Bytes) : OnRow b (moveTargets b folder) := by
  have hsub : ∀ entries, OnRow b (listSubfolders b entries) := by
    intro entries
    induction entries with
    | nil => exact OnRows.pure []
    | cons e es ih =>
      exact OnRows.get rfl fun _ => ih.bind fun _ => OnRows.ite (OnRows.pure _) (OnRows.pure _)
  exact OnRows.get rfl fun _ => OnRows.ite (OnRows.pure _) (hsub _)

theorem onRow_onWorkerFor {h : Handler StorageReply} (hh : OnRow b h) : OnRow b (onWorkerFor b h) :=
  OnRows.lookup fun _ => OnRows.ite (OnRows.pure _) hh

/-- A method works on the row when what it does with its parameters does. -/
theorem onRow_served {α : Type} (parsed : Except Abort (Parsed α)) {f : α → Handler StorageReply}
    (hf : ∀ a, OnRow b (f a)) : OnRow b (served b parsed f) := by
  rcases parsed with e | page | a
  · exact onRow_onWorkerFor (OnRows.fail e)
  · exact onRow_onWorkerFor (OnRows.pure _)
  · exact hf a

theorem onRow_answered {h : Handler Answer} (hh : OnRow b h) : OnRow b (answered h) :=
  hh.bind fun _ => OnRows.pure _

end Storage

/-- **The methods of the storage service work on the row of the user** they are called for. -/
theorem onRow_storageBranch {r : ClientRequest} {branch : Branch}
    {method : Bytes → Handler StorageReply} (h : r.storageBranch branch = some method)
    (u : Bytes) : OnRow (storageRow u) (method u) := by
  have hform : ∀ reply : StorageReply, OnRow (storageRow u)
      (onWorkerFor (storageRow u) (pure reply)) := fun reply => onRow_onWorkerFor (OnRows.pure _)
  cases branch with
  | list =>
    obtain rfl := Option.some.inj h
    exact onRow_served _ fun _ => onRow_answered (onRow_webStorageList _)
  | remove =>
    obtain rfl := Option.some.inj h
    exact onRow_served _ fun _ => onRow_answered (onRow_webStorageDelete _ _)
  | renameFolder =>
    obtain rfl := Option.some.inj h
    refine OnRows.ite ?_ (onRow_served _ fun _ => hform _)
    exact onRow_served _ fun _ => onRow_answered (onRow_webStorageRenameFolder _ _ _)
  | renameFile =>
    obtain rfl := Option.some.inj h
    refine OnRows.ite ?_ (onRow_served _ fun _ => hform _)
    exact onRow_served _ fun _ => onRow_answered (onRow_webStorageRenameFile _ _ _)
  | moveFile =>
    obtain rfl := Option.some.inj h
    refine OnRows.ite ?_ (onRow_served _ fun _ => onRow_onWorkerFor ?_)
    · exact onRow_served _ fun _ => onRow_answered (onRow_webStorageMoveFile _ _ _ _)
    · exact (onRow_moveTargets _).bind fun _ => OnRows.pure _
  | moveFolder =>
    obtain rfl := Option.some.inj h
    refine OnRows.ite ?_ (onRow_served _ fun _ => onRow_onWorkerFor ?_)
    · exact onRow_served _ fun _ => onRow_answered (onRow_webStorageMoveFolder _ _ _)
    · exact (onRow_moveTargets _).bind fun _ => OnRows.pure _
  | createFolder =>
    obtain rfl := Option.some.inj h
    exact onRow_served _ fun _ => onRow_answered (onRow_webStorageCreateFolder _ _)
  | upload =>
    obtain rfl := Option.some.inj h
    exact onRow_served _ fun _ => onRow_answered (onRow_webStorageUpload _ _ _ _)
  | download =>
    obtain rfl := Option.some.inj h
    exact onRow_served _ fun _ => onRow_webStorageDownload _ _
  | _ => cases h

/-! ### The mail -/

/-- A row that is a mailbox. -/
def MailRow (row : Bytes) : Prop := ∃ address, row = inboxRow address ∨ row = sentRow address

theorem mailRow_inboxRow (address : Bytes) : MailRow (inboxRow address) := ⟨address, Or.inl rfl⟩

theorem mailRow_sentRow (address : Bytes) : MailRow (sentRow address) := ⟨address, Or.inr rfl⟩

theorem mailRow_folderRow (username folder : Bytes) : MailRow (folderRow username folder) := by
  rw [folderRow]
  split_ifs with hsent
  · exact mailRow_sentRow username
  · exact mailRow_inboxRow username

section Mail

variable {R : Bytes → Prop} {α : Type} {row : Bytes} {f : Bytes → Handler α}

theorem OnRows.clientGet (client : Bool) {c : Bytes} (h : R row) (hf : ∀ t, OnRows R (f t)) :
    OnRows R (PennCloud.clientGet client row c >>= f) := by
  cases client with
  | false => exact hf _
  | true => exact OnRows.get h hf

theorem OnRows.clientPut (client : Bool) {c v : Bytes} (h : R row) (hf : ∀ t, OnRows R (f t)) :
    OnRows R (PennCloud.clientPut client row c v >>= f) := by
  cases client with
  | false => exact hf _
  | true => exact OnRows.put h hf

theorem OnRows.clientDelete (client : Bool) {c : Bytes} (h : R row) (hf : ∀ t, OnRows R (f t)) :
    OnRows R (PennCloud.clientDelete client row c >>= f) := by
  cases client with
  | false => exact hf _
  | true => exact OnRows.delete h hf

theorem onRows_appendToMetadata (h : R row) (id : Bytes) : OnRows R (appendToMetadata row id) := by
  refine OnRows.lookup fun _ => OnRows.clientGet _ h fun _ => ?_
  exact OnRows.clientPut _ h fun _ => OnRows.pure ()

theorem onRows_storeEmail (h : R row) (id body : Bytes) : OnRows R (storeEmail row id body) := by
  refine OnRows.lookup fun _ => OnRows.clientPut _ h fun _ => OnRows.ite (OnRows.pure _) ?_
  exact (onRows_appendToMetadata h id).bind fun _ => OnRows.pure _

theorem onMailRow_renderInbox (username : Bytes) : OnRows MailRow (renderInbox username) := by
  have htable : ∀ row who, MailRow row → OnRows MailRow (renderTable row who) := by
    intro row who h
    refine OnRows.lookup fun _ => OnRows.clientGet _ h fun _ => ?_
    exact OnRows.ite (OnRows.pure _) (OnRows.pure _)
  refine (htable _ _ (mailRow_inboxRow _)).bind fun _ => ?_
  exact (htable _ _ (mailRow_sentRow _)).bind fun _ => OnRows.pure _

theorem onMailRow_viewEmail (username id folder : Bytes) :
    OnRows MailRow (viewEmail username id folder) := by
  refine OnRows.lookup fun _ => OnRows.clientGet _ (mailRow_folderRow _ _) fun _ => ?_
  exact OnRows.ite (OnRows.pure _) (OnRows.pure _)

theorem onMailRow_originalBody (username id folder : Bytes) :
    OnRows MailRow (originalBody username id folder) :=
  OnRows.lookup fun _ => OnRows.clientGet _ (mailRow_folderRow _ _) fun _ => OnRows.pure _

theorem onMailRow_sendEmail (env : Surroundings) (postData : Bytes) :
    OnRows MailRow (sendEmail env postData) := by
  rw [sendEmail, sendMessage]
  split_ifs with hexternal
  · exact (onRows_storeEmail (mailRow_sentRow _) _ _).bind fun _ => OnRows.pure _
  · refine (onRows_storeEmail (mailRow_inboxRow _) _ _).bind fun _ => ?_
    exact (onRows_storeEmail (mailRow_sentRow _) _ _).bind fun _ => OnRows.pure _

theorem onMailRow_deleteEmail (username id folder : Bytes) :
    OnRows MailRow (deleteEmail username id folder) := by
  have hremove : ∀ row, MailRow row → OnRows MailRow (removeFromMetadata row id) := by
    intro row h
    refine OnRows.lookup fun _ => OnRows.clientGet _ h fun _ => OnRows.ite (OnRows.pure _) ?_
    exact OnRows.clientPut _ h fun _ => OnRows.pure _
  refine OnRows.lookup fun _ => OnRows.clientDelete _ (mailRow_folderRow _ _) fun _ => ?_
  refine OnRows.ite (OnRows.pure _) ((hremove _ (mailRow_folderRow _ _)).bind fun _ => ?_)
  exact OnRows.pure _

/-- **The web mail works on mailboxes**, whatever path and parameters it is called with. -/
theorem onMailRow_handleRequest (env : Surroundings) (path : Bytes) (reqType : ReqType)
    (queryStr postData : Bytes) : OnRows MailRow (handleRequest env path reqType queryStr postData)
    := by
  refine OnRows.ite (onMailRow_renderInbox _) (OnRows.ite (onMailRow_sendEmail _ _) ?_)
  refine OnRows.ite (onMailRow_viewEmail _ _ _) (OnRows.ite (OnRows.pure _) ?_)
  refine OnRows.ite (onMailRow_deleteEmail _ _ _) (OnRows.ite ?_ (OnRows.ite ?_ (OnRows.pure _)))
  · exact (onMailRow_originalBody _ _ _).bind fun _ => OnRows.pure _
  · exact (onMailRow_originalBody _ _ _).bind fun _ => OnRows.pure _

/-- **The mail server works on mailboxes**: so do the calls of whatever it puts out. -/
theorem onMailRow_calls (o : Smtp.Output) : OnRows MailRow o.calls := by
  have hstore : ∀ row id body, MailRow row → OnRows MailRow (Smtp.store row id body) := by
    intro row id body h
    exact OnRows.lookup fun _ => OnRows.clientPut _ h fun _ => onRows_appendToMetadata h id
  cases o with
  | reply text => exact OnRows.pure ()
  | deliver sender recipient subject timestamp body =>
    refine (hstore _ _ _ (mailRow_inboxRow recipient)).bind fun _ => ?_
    exact OnRows.ite (hstore _ _ _ (mailRow_sentRow sender)) (OnRows.pure ())
  | relay => exact OnRows.pure ()
  | bounce sender recipient reason timestamp =>
    have h := mailRow_inboxRow sender
    refine OnRows.lookup fun _ => OnRows.clientPut _ h fun _ => OnRows.clientGet _ h fun _ => ?_
    exact OnRows.clientPut _ h fun _ => OnRows.pure ()

end Mail

/-! ### Whose rows they are -/

/-- The name of a user begins like a mailbox. -/
def NamedLikeMailbox (u : Bytes) : Prop := ascii "inbox_email:" <+: u ∨ ascii "sent_email:" <+: u

instance (u : Bytes) : Decidable (NamedLikeMailbox u) := inferInstanceAs (Decidable (_ ∨ _))

/-- A word without a hyphen that a name with an ending begins with is in the name. -/
theorem prefix_of_append_eq {word u ending address : Bytes} (hword : 45 ∉ word)
    (h : word ++ address = u ++ 45 :: ending) : word <+: u := by
  rcases List.append_eq_append_iff.mp h with ⟨rest, rfl, -⟩ | ⟨rest, rfl, hrest⟩
  · exact List.prefix_append _ _
  · rcases rest with _ | ⟨x, rest⟩
    · rw [List.append_nil]
    · obtain ⟨rfl, -⟩ := List.cons.inj hrest
      exact absurd (List.mem_append_right u List.mem_cons_self) hword

theorem not_mailRow_of_ending {u : Bytes} (hu : ¬NamedLikeMailbox u) (ending : Bytes) :
    ¬MailRow (u ++ 45 :: ending) := by
  rintro ⟨address, h | h⟩
  · exact hu (Or.inl (prefix_of_append_eq (by decide) h.symm))
  · exact hu (Or.inr (prefix_of_append_eq (by decide) h.symm))

/-- The files of a user are no mailbox. -/
theorem not_mailRow_storageRow {u : Bytes} (hu : ¬NamedLikeMailbox u) : ¬MailRow (storageRow u) :=
  not_mailRow_of_ending hu (ascii "storage")

/-- Nor is the row of the password. -/
theorem not_mailRow_userinfo {u : Bytes} (hu : ¬NamedLikeMailbox u) : ¬MailRow (userinfo u) :=
  not_mailRow_of_ending hu (ascii "userinfo")

/-- Nor are the sessions. -/
theorem not_mailRow_sessionRow : ¬MailRow sessionRow := by
  have hrow : sessionRow = ascii "session" ++ 45 :: ascii "ids" := by decide
  rw [hrow]
  exact not_mailRow_of_ending (by decide) (ascii "ids")

theorem sessionRow_ne_userinfo (u : Bytes) : sessionRow ≠ userinfo u := by
  intro h
  have hsuffix : ascii "-userinfo" <:+ sessionRow := h ▸ List.suffix_append u _
  exact absurd hsuffix (by decide)

theorem sessionRow_ne_storageRow (u : Bytes) : sessionRow ≠ storageRow u := by
  intro h
  have hsuffix : ascii "-storage" <:+ sessionRow := h ▸ List.suffix_append u _
  exact absurd hsuffix (by decide)

theorem storageRow_ne_userinfo (u v : Bytes) : storageRow u ≠ userinfo v := by
  intro h
  have hlast : (storageRow u).getLast? = (userinfo v).getLast? := congrArg List.getLast? h
  have hstorage : (ascii "-storage").getLast? = some 101 := by decide
  have huserinfo : (ascii "-userinfo").getLast? = some 111 := by decide
  rw [storageRow, userinfo, List.getLast?_append, List.getLast?_append, hstorage,
    huserinfo] at hlast
  exact absurd (Option.some.inj hlast) (by decide)

end PennCloud
