import PennCloud.Frontend.Mail.Readable

/-!
# Whose mailbox it is

The way of a request to the web mail. `client_connection` selects one of seven
branches, which cut a query or a form out of the text; `handleEmailService` finds
the user of the session and refuses a request that has none; and `handleRequest`
reads the parameters and works on the mailboxes that *they* name. The user of the
session is not passed on. Only the branch of the inbox puts the name into the query,
and only if the query does not have one.

So a user reads and empties the mailbox of another by saying so, and signs a message
with any name (`PennCloud.reads_foreign_inbox`). `PennCloud.ownMail_iff` says which
requests stay with the mailboxes of the user: those whose parameters, after decoding
and with `@localhost` behind a name without `@`, are the address of the user. A
message to somebody else never is one of them, since the list of the other mailbox
is read for the message to be put on it.
-/

namespace PennCloud

open Wire Calls Text

/-! ### From the request to the operation -/

/-- What `handleEmailService` answers. -/
inductive MailResponse where
  /-- 401: there is no session. -/
  | unauthorized
  /-- 503: there is no worker for the user. -/
  | unavailable
  /-- 200, with the page. -/
  | page (page : MailPage)
  deriving DecidableEq

/-- `handleEmailService`. -/
def handleEmailService (env : Surroundings) (sessionId path : Bytes) (reqType : ReqType)
    (queryParams data : Bytes) : Handler MailResponse := do
  let username ← getUsernameFromSession sessionId
  if username.isEmpty then return .unauthorized
  else
    let worker ← lookup (username ++ ascii "-email")
    if isErr worker then return .unavailable
    else
      let page ← handleRequest env path reqType queryParams data
      return .page page

/-- The query of the branch of the inbox. -/
def inboxQuery (request username : Bytes) : Bytes :=
  match cut (ascii "?") (requestUrl request) with
  | some (_, queryStr) =>
    if found "username=" queryStr then queryStr
    else queryStr ++ ascii "&username=" ++ username
  | none => ascii "username=" ++ username

/-- The branches of the web mail. -/
def mailBranch (env : Surroundings) (request : Bytes) : Branch → Option (Handler MailResponse)
  | .email => some (handleEmailService env (extractSessionId request) (ascii "/email") .get
      (queryString request) [])
  | .deleteMail => some (handleEmailService env (extractSessionId request) (ascii "/delete") .post
      (queryString request) [])
  | .send => some (handleEmailService env (extractSessionId request) (ascii "/send") .post []
      (requestBody request))
  | .compose => some (handleEmailService env (extractSessionId request) (ascii "/compose") .get
      (queryString request) [])
  | .inbox => some do
      let username ← getUsernameFromSession (extractSessionId request)
      handleEmailService env (extractSessionId request) (ascii "/inbox") .get
        (inboxQuery request username) []
  | .reply => some (handleEmailService env (extractSessionId request) (ascii "/reply") .get
      (queryString request) [])
  | .forward => some (handleEmailService env (extractSessionId request) (ascii "/forward") .get
      (queryString request) [])
  | _ => none

/-- What the web mail does with a request that is sent to it. -/
def mailRequest (env : Surroundings) (request : Bytes) : Option (Handler MailResponse) :=
  (clientConnection request).bind (mailBranch env request)

section Paths

variable (env : Surroundings) (queryStr postData : Bytes)

theorem handleRequest_inbox : handleRequest env (ascii "/inbox") .get queryStr postData =
    renderInbox (queryUsername queryStr) := rfl

theorem handleRequest_send : handleRequest env (ascii "/send") .post queryStr postData =
    sendEmail env postData := rfl

theorem handleRequest_email : handleRequest env (ascii "/email") .get queryStr postData =
    viewEmail (queryUsername queryStr) (queryEmailId queryStr) (queryFolder queryStr) := rfl

theorem handleRequest_compose : handleRequest env (ascii "/compose") .get queryStr postData =
    return .compose (queryUsername queryStr) := rfl

theorem handleRequest_delete : handleRequest env (ascii "/delete") .post queryStr postData =
    deleteEmail (queryUsername queryStr) (queryEmailId queryStr) (queryFolder queryStr) := rfl

theorem handleRequest_reply : handleRequest env (ascii "/reply") .get queryStr postData =
    renderReplyCompose (queryUsername queryStr) (queryEmailId queryStr) (queryFolder queryStr) :=
  rfl

theorem handleRequest_forward : handleRequest env (ascii "/forward") .get queryStr postData =
    renderForwardCompose (queryUsername queryStr) (queryEmailId queryStr)
      (queryFolder queryStr) := rfl

end Paths

/-! ### The rows that are read -/

/-- The row a call reads or deletes from. -/
def Call.accessed : Call → Option Bytes
  | .get row _ => some row
  | .update (.delete row _) => some row
  | _ => none

section Accessed

variable (master : Master) {α β : Type} (kvs : Tablet)

/-- The rows that a handler reads or deletes from. -/
def accessed (p : Handler α) : List Bytes :=
  (p.calls (Call.exec master) kvs).filterMap Call.accessed

variable {master kvs}

theorem accessed_bind_of_ok {p : Handler α} {f : α → Handler β} {kvs' : Tablet} {a : α}
    (h : p.run (Call.exec master) kvs = (.ok a, kvs')) :
    accessed master kvs (p >>= f) = accessed master kvs p ++ accessed master kvs' (f a) := by
  rw [accessed, Prog.calls_bind_of_ok (Call.exec master) h, List.filterMap_append]
  rfl

theorem accessed_getWorkerClient_bind {row : Bytes} {f : Bool → Handler α} :
    accessed master kvs (getWorkerClient row >>= f) =
      accessed master kvs (f (!isErr (clientText (master row)))) := rfl

theorem accessed_Get_bind {row column : Bytes} {f : Bytes → Handler α} :
    accessed master kvs (Get row column >>= f) =
      row :: accessed master kvs (f (kvs.text row column)) := rfl

theorem accessed_Put_bind {row column value : Bytes} {f : Bytes → Handler α} :
    accessed master kvs (Put row column value >>= f) =
      accessed master (kvs.put row column value) (f (ascii "PUT Successful")) := rfl

theorem accessed_Delete_bind {row column : Bytes} {f : Bytes → Handler α} :
    accessed master kvs (Delete row column >>= f) =
      row :: accessed master (kvs.delete row column) (f (ascii "Delete Successful")) := rfl

variable (master kvs)

/-- The rows that a handler reads or deletes from are, of some rows, those that are
reached. -/
def Accesses (p : Handler α) (rows : List Bytes) : Prop :=
  ∀ r, r ∈ accessed master kvs p ↔ r ∈ rows ∧ Reached master r

variable {master kvs}

theorem Accesses.pure (a : α) : Accesses master kvs (pure a) [] := by
  intro r
  simp [accessed]

/-- One handler after another. -/
theorem Accesses.bind {p : Handler α} {f : α → Handler β} {kvs' : Tablet} {a : α}
    {rows rows' : List Bytes} (hp : Accesses master kvs p rows)
    (hrun : p.run (Call.exec master) kvs = (.ok a, kvs')) (hf : Accesses master kvs' (f a) rows') :
    Accesses master kvs (p >>= f) (rows ++ rows') := by
  intro r
  rw [accessed_bind_of_ok hrun, List.mem_append, List.mem_append, hp r, hf r, or_and_right]

/-- A handler that works on one row, with the client for it. -/
theorem Accesses.getWorkerClient {row : Bytes} {f : Bool → Handler α}
    (hfalse : accessed master kvs (f false) = [])
    (htrue : Reached master row → ∀ r, r ∈ accessed master kvs (f true) ↔ r = row) :
    Accesses master kvs (getWorkerClient row >>= f) [row] := by
  intro r
  rw [accessed_getWorkerClient_bind, List.mem_singleton]
  cases hreach : isErr (clientText (master row)) with
  | true =>
    rw [Bool.not_true, hfalse]
    refine iff_of_false (List.not_mem_nil) ?_
    rintro ⟨rfl, hr⟩
    exact absurd (hreach.symm.trans hr) (by simp)
  | false =>
    rw [Bool.not_false, htrue hreach r]
    exact (and_iff_left_of_imp fun hr => hr ▸ hreach).symm

end Accessed

/-! ### The operations -/

section Operations

variable {master : Master} {kvs : Tablet}

theorem run_renderTable (master : Master) (kvs : Tablet) (row : Bytes) (who : String) :
    ∃ table, (renderTable row who).run (Call.exec master) kvs = (.ok table, kvs) := by
  rw [renderTable, run_getWorkerClient_bind]
  cases !isErr (clientText (master row)) with
  | false => exact ⟨none, rfl⟩
  | true =>
    simp only [clientGet, if_true, run_Get_bind]
    split_ifs with hnone
    · exact ⟨_, rfl⟩
    · exact ⟨_, rfl⟩

theorem accesses_renderTable (row : Bytes) (who : String) :
    Accesses master kvs (renderTable row who) [row] := by
  refine Accesses.getWorkerClient rfl fun _ r => ?_
  simp only [clientGet, if_true, accessed_Get_bind]
  split_ifs with hnone
  · exact List.mem_singleton
  · exact List.mem_singleton

theorem accesses_renderInbox (username : Bytes) :
    Accesses master kvs (renderInbox username) [inboxRow username, sentRow username] := by
  obtain ⟨received, hreceived⟩ := run_renderTable master kvs (inboxRow username) "sender"
  obtain ⟨sent, hsent⟩ := run_renderTable master kvs (sentRow username) "recipient"
  exact (accesses_renderTable (inboxRow username) "sender").bind hreceived
    ((accesses_renderTable (sentRow username) "recipient").bind hsent (Accesses.pure _))

theorem accesses_viewEmail (username emailId folder : Bytes) :
    Accesses master kvs (viewEmail username emailId folder) [folderRow username folder] := by
  refine Accesses.getWorkerClient rfl fun _ r => ?_
  simp only [clientGet, if_true, accessed_Get_bind]
  split_ifs with herr
  · exact List.mem_singleton
  · exact List.mem_singleton

theorem run_originalBody (master : Master) (kvs : Tablet) (username emailId folder : Bytes) :
    ∃ body, (originalBody username emailId folder).run (Call.exec master) kvs =
      (.ok body, kvs) := by
  rw [originalBody, run_getWorkerClient_bind]
  cases !isErr (clientText (master (folderRow username folder))) with
  | false => exact ⟨_, rfl⟩
  | true => exact ⟨_, rfl⟩

theorem accesses_originalBody (username emailId folder : Bytes) :
    Accesses master kvs (originalBody username emailId folder) [folderRow username folder] :=
  Accesses.getWorkerClient rfl fun _ _ => List.mem_singleton

theorem accesses_renderReplyCompose (username emailId folder : Bytes) :
    Accesses master kvs (renderReplyCompose username emailId folder)
      [folderRow username folder] := by
  obtain ⟨body, hbody⟩ := run_originalBody master kvs username emailId folder
  exact (accesses_originalBody username emailId folder).bind hbody (Accesses.pure _)

theorem accesses_renderForwardCompose (username emailId folder : Bytes) :
    Accesses master kvs (renderForwardCompose username emailId folder)
      [folderRow username folder] := by
  obtain ⟨body, hbody⟩ := run_originalBody master kvs username emailId folder
  exact (accesses_originalBody username emailId folder).bind hbody (Accesses.pure _)

theorem accessed_appendToMetadata {row : Bytes} (id : Bytes) (hreach : Reached master row) :
    accessed master kvs (appendToMetadata row id) = [row] := by
  rw [appendToMetadata, accessed_getWorkerClient_bind, hreach]
  rfl

theorem accessed_removeFromMetadata {row : Bytes} (id : Bytes) (hreach : Reached master row) :
    accessed master kvs (removeFromMetadata row id) = [row] := by
  rw [removeFromMetadata, accessed_getWorkerClient_bind, hreach]
  simp only [clientGet, Bool.not_false, if_true, accessed_Get_bind]
  split_ifs with herr
  · rfl
  · rfl

/-- The list is read when a message is put on it. -/
theorem accesses_storeEmail (row id body : Bytes) :
    Accesses master kvs (storeEmail row id body) [row] := by
  refine Accesses.getWorkerClient rfl fun hreach r => ?_
  have happend := run_appendToMetadata master (kvs.put row id body) row id hreach
  simp only [clientPut, if_true, accessed_Put_bind, isErr_put_successful, Bool.false_eq_true,
    if_false]
  rw [accessed_bind_of_ok happend, accessed_appendToMetadata id hreach]
  exact List.mem_singleton

theorem accesses_deleteEmail (username id folder : Bytes) :
    Accesses master kvs (deleteEmail username id folder) [folderRow username folder] := by
  refine Accesses.getWorkerClient rfl fun hreach r => ?_
  have hremove : (removeFromMetadata (folderRow username folder) id).run (Call.exec master)
      (kvs.delete (folderRow username folder) id) = _ :=
    MailHistory.run_removeFromMetadata id hreach
  simp only [clientDelete, if_true, accessed_Delete_bind, isErr_delete_successful,
    Bool.false_eq_true, if_false]
  rw [accessed_bind_of_ok hremove, accessed_removeFromMetadata id hreach]
  simp [accessed]

theorem accesses_sendMessage (env : Surroundings) (sender recipient subject body : Bytes) :
    Accesses master kvs (sendMessage env sender recipient subject body)
      ((if isExternalEmail recipient then [] else [inboxRow recipient]) ++ [sentRow sender]) := by
  rw [sendMessage]
  split_ifs with hexternal
  · exact (accesses_storeEmail (sentRow sender) _ body).bind (run_storeEmail master kvs _ _ _)
      (Accesses.pure _)
  · exact (accesses_storeEmail (inboxRow recipient) _ body).bind (run_storeEmail master kvs _ _ _)
      ((accesses_storeEmail (sentRow sender) _ body).bind (run_storeEmail master _ _ _ _)
        (Accesses.pure _))

end Operations

/-! ### The sender of a message -/

/-- The sender of the message that a page says was sent. -/
def MailPage.sentBy : MailPage → Option Bytes
  | .sent senderUsername _ _ _ => some senderUsername
  | _ => none

section Sender

/-- Pages that say nothing was sent. -/
def Unsent (p : Handler MailPage) : Prop := p.Returns fun page => page.sentBy = none

theorem unsent_renderInbox (username : Bytes) : Unsent (renderInbox username) :=
  Prog.Returns.then _ fun _ => Prog.Returns.then _ fun _ => rfl

theorem unsent_viewEmail (username emailId folder : Bytes) :
    Unsent (viewEmail username emailId folder) := by
  refine Prog.Returns.then _ fun _ => Prog.Returns.then _ fun body => ?_
  split_ifs with herr
  · rfl
  · rfl

theorem unsent_renderReplyCompose (username emailId folder : Bytes) :
    Unsent (renderReplyCompose username emailId folder) :=
  Prog.Returns.then _ fun _ => rfl

theorem unsent_renderForwardCompose (username emailId folder : Bytes) :
    Unsent (renderForwardCompose username emailId folder) :=
  Prog.Returns.then _ fun _ => rfl

theorem unsent_deleteEmail (username emailId folder : Bytes) :
    Unsent (deleteEmail username emailId folder) := by
  refine Prog.Returns.then _ fun _ => Prog.Returns.then _ fun res => ?_
  split_ifs with herr
  · rfl
  · exact Prog.Returns.then _ fun _ => rfl

theorem sentBy_sendMessage (env : Surroundings) (sender recipient subject body : Bytes) :
    (sendMessage env sender recipient subject body).Returns
      fun page => page.sentBy = some sender := by
  rw [sendMessage]
  split_ifs with hexternal
  · exact Prog.Returns.then _ fun _ => Prog.Returns.then _ fun _ => rfl
  · exact Prog.Returns.then _ fun _ => Prog.Returns.then _ fun _ => rfl

end Sender

/-! ### The mailboxes of a user -/

/-- The address of a user. -/
def ownAddress (username : Bytes) : Bytes := username ++ ascii "@localhost"

/-- The row of a mailbox. -/
def IsMailbox (row : Bytes) : Prop := ∃ address, row = inboxRow address ∨ row = sentRow address

/-- The mailboxes of a user. -/
def ownRows (username : Bytes) : List Bytes :=
  [inboxRow (ownAddress username), sentRow (ownAddress username)]

section Rows

variable {username address : Bytes}

theorem inboxRow_ne_sentRow (address' : Bytes) : inboxRow address ≠ sentRow address' := by
  intro h
  exact absurd (List.cons.inj h).1 (by decide)

theorem inboxRow_mem_ownRows :
    inboxRow address ∈ ownRows username ↔ address = ownAddress username := by
  rw [ownRows, List.mem_cons, List.mem_singleton, or_iff_left (inboxRow_ne_sentRow _)]
  exact List.append_right_inj _

theorem sentRow_mem_ownRows :
    sentRow address ∈ ownRows username ↔ address = ownAddress username := by
  rw [ownRows, List.mem_cons, List.mem_singleton, or_iff_right (inboxRow_ne_sentRow _).symm]
  exact List.append_right_inj _

theorem folderRow_mem_ownRows {folder : Bytes} :
    folderRow address folder ∈ ownRows username ↔ address = ownAddress username := by
  rw [folderRow]
  split_ifs with hsent
  · exact sentRow_mem_ownRows
  · exact inboxRow_mem_ownRows

theorem isMailbox_folderRow (address folder : Bytes) : IsMailbox (folderRow address folder) := by
  rw [folderRow]
  split_ifs with hsent
  · exact ⟨address, Or.inr rfl⟩
  · exact ⟨address, Or.inl rfl⟩

theorem not_isMailbox_sessionRow : ¬IsMailbox sessionRow := by
  rintro ⟨address, h | h⟩
  · exact absurd (List.cons.inj h).1 (by decide)
  · obtain ⟨-, h⟩ := List.cons.inj h
    obtain ⟨-, h⟩ := List.cons.inj h
    exact absurd (List.cons.inj h).1 (by decide)

end Rows

section Own

variable (master : Master) (kvs : Tablet) (username : Bytes)

/-- **A request stays with the mailboxes of a user**: all mailboxes that are read or
deleted from are theirs, and so is the name on a message that is sent. -/
structure OwnMail (p : Handler MailResponse) : Prop where
  rows : ∀ row ∈ accessed master kvs p, IsMailbox row → row ∈ ownRows username
  sender : ∀ page sender, (p.run (Call.exec master) kvs).1 = .ok (.page page) →
    page.sentBy = some sender → sender = ownAddress username

/-- **The parameters of a request name the user**: the name in the query, or the
sender and a recipient at `localhost`. A mailbox without a worker does not count. -/
def NamesUser (request : Bytes) : Branch → Prop
  | .send =>
    let postData := requestBody request
    formField postData "username" = ownAddress username ∧
      (isExternalEmail (formField postData "to") = false →
        Reached master (inboxRow (formField postData "to")) →
          formField postData "to" = ownAddress username)
  | .inbox =>
    let name := queryUsername (inboxQuery request username)
    Reached master (inboxRow name) ∨ Reached master (sentRow name) → name = ownAddress username
  | .compose => True
  | _ =>
    let name := queryUsername (queryString request)
    Reached master (folderRow name (queryFolder (queryString request))) →
      name = ownAddress username

/-- The same for the page alone. -/
structure OwnPage (p : Handler MailPage) : Prop where
  rows : ∀ row ∈ accessed master kvs p, IsMailbox row → row ∈ ownRows username
  sender : ∀ page sender, (p.run (Call.exec master) kvs).1 = .ok page →
    page.sentBy = some sender → sender = ownAddress username

variable {master kvs username}

/-- The session is read, which is no mailbox. -/
theorem ownMail_session_bind {sessionId : Bytes} {f : Bytes → Handler MailResponse}
    (hsession : ((getUsernameFromSession sessionId).run (Call.exec master) kvs).1 = .ok username) :
    OwnMail master kvs username (getUsernameFromSession sessionId >>= f) ↔
      OwnMail master kvs username (f username) := by
  have hread : ((getUsernameFromSession sessionId).run (Call.exec master) kvs).2 = kvs ∧
      ∀ row ∈ accessed master kvs (getUsernameFromSession sessionId), row = sessionRow := by
    rw [getUsernameFromSession]
    simp only [run_lookup_bind]
    show _ ∧
      ∀ row ∈ accessed master kvs (if isErr (clientText (master sessionRow)) then _ else _), _
    split_ifs with hlookup
    · exact ⟨rfl, fun row hrow => by cases hrow⟩
    · simp only [run_Get_bind, accessed_Get_bind]
      split_ifs with herr
      · exact ⟨rfl, fun row hrow => List.mem_singleton.mp hrow⟩
      · exact ⟨rfl, fun row hrow => List.mem_singleton.mp hrow⟩
  have hrun : (getUsernameFromSession sessionId).run (Call.exec master) kvs =
      (.ok username, kvs) := Prod.ext hsession hread.1
  constructor
  · intro h
    refine ⟨fun row hrow => h.rows row ?_, fun page sender hpage => h.sender page sender ?_⟩
    · rw [accessed_bind_of_ok hrun]
      exact List.mem_append_right _ hrow
    · rw [Prog.run_bind_of_ok (Call.exec master) hrun]
      exact hpage
  · intro h
    refine ⟨fun row hrow hmail => ?_, fun page sender hpage => h.sender page sender ?_⟩
    · rw [accessed_bind_of_ok hrun] at hrow
      rcases List.mem_append.mp hrow with hsess | hrest
      · exact absurd (hread.2 row hsess ▸ hmail) not_isMailbox_sessionRow
      · exact h.rows row hrest hmail
    · rw [Prog.run_bind_of_ok (Call.exec master) hrun] at hpage
      exact hpage

theorem ownMail_lookup_bind {key : Bytes} {f : Bytes → Handler MailResponse} :
    OwnMail master kvs username (lookup key >>= f) ↔
      OwnMail master kvs username (f (clientText (master key))) :=
  ⟨fun h => ⟨h.rows, h.sender⟩, fun h => ⟨h.rows, h.sender⟩⟩

/-- A page that is sent as it is. -/
theorem ownMail_page {p : Handler MailPage} :
    OwnMail master kvs username (do
      let page ← p
      return .page page) ↔ OwnPage master kvs username p := by
  have hcalls : accessed master kvs (do
      let page ← p
      return MailResponse.page page) = accessed master kvs p :=
    congrArg (List.filterMap Call.accessed) (Prog.calls_bind_pure (Call.exec master) p _ kvs)
  have hrun : ∀ page, ((do
      let page ← p
      return MailResponse.page page : Handler MailResponse).run (Call.exec master) kvs).1 =
        .ok (.page page) ↔ (p.run (Call.exec master) kvs).1 = .ok page := by
    intro page
    rcases Prog.run_bind (Call.exec master) p (fun page => return MailResponse.page page) kvs with
      ⟨a, hp, hall⟩ | ⟨e, hp, hall⟩
    · rw [hall, hp]
      simp
    · rw [hall, hp]
      simp
  constructor
  · intro h
    exact ⟨fun row hrow => h.rows row (hcalls ▸ hrow),
      fun page sender hpage => h.sender page sender ((hrun page).mpr hpage)⟩
  · intro h
    exact ⟨fun row hrow => h.rows row (hcalls ▸ hrow),
      fun page sender hpage => h.sender page sender ((hrun page).mp hpage)⟩

/-- **What the service does for a user** is up to the parameters. -/
theorem ownMail_handleEmailService {env : Surroundings} {sessionId path : Bytes} {reqType : ReqType}
    {queryParams data : Bytes}
    (hsession : ((getUsernameFromSession sessionId).run (Call.exec master) kvs).1 = .ok username)
    (hne : username ≠ []) :
    OwnMail master kvs username (handleEmailService env sessionId path reqType queryParams data) ↔
      (Reached master (username ++ ascii "-email") →
        OwnPage master kvs username (handleRequest env path reqType queryParams data)) := by
  rw [handleEmailService, ownMail_session_bind hsession, if_neg (by simpa using hne),
    ownMail_lookup_bind]
  cases hreach : isErr (clientText (master (username ++ ascii "-email"))) with
  | true =>
    rw [if_pos rfl]
    refine iff_of_true ⟨fun row hrow => ?_, fun page sender hpage => ?_⟩ fun h => ?_
    · cases hrow
    · cases hpage
    · exact absurd (hreach.symm.trans h) (by simp)
  | false =>
    rw [if_neg Bool.false_ne_true, ownMail_page]
    exact ⟨fun h _ => h, fun h => h hreach⟩

/-- An operation that sends nothing. -/
theorem ownPage_of_unsent {p : Handler MailPage} {rows : List Bytes}
    (hrows : Accesses master kvs p rows) (hunsent : Unsent p)
    (hmail : ∀ row ∈ rows, IsMailbox row) :
    OwnPage master kvs username p ↔ ∀ row ∈ rows, Reached master row → row ∈ ownRows username := by
  constructor
  · intro h row hrow hreach
    exact h.rows row ((hrows row).mpr ⟨hrow, hreach⟩) (hmail row hrow)
  · intro h
    refine ⟨fun row hrow _ => ?_, fun page sender hpage hsent => ?_⟩
    · obtain ⟨hmem, hreach⟩ := (hrows row).mp hrow
      exact h row hmem hreach
    · exact absurd ((hunsent.run (Call.exec master) hpage).symm.trans hsent) (by simp)

/-- An operation on one folder. -/
theorem ownPage_of_folder {p : Handler MailPage} {name folder : Bytes}
    (hrows : Accesses master kvs p [folderRow name folder]) (hunsent : Unsent p) :
    OwnPage master kvs username p ↔
      (Reached master (folderRow name folder) → name = ownAddress username) := by
  have hmail : ∀ row ∈ [folderRow name folder], IsMailbox row := by
    intro row hrow
    obtain rfl := List.mem_singleton.mp hrow
    exact isMailbox_folderRow name folder
  rw [ownPage_of_unsent hrows hunsent hmail, List.forall_mem_singleton, folderRow_mem_ownRows]

theorem ownPage_renderInbox {name : Bytes} :
    OwnPage master kvs username (renderInbox name) ↔
      (Reached master (inboxRow name) ∨ Reached master (sentRow name) →
        name = ownAddress username) := by
  have hmail : ∀ row ∈ [inboxRow name, sentRow name], IsMailbox row := by
    intro row hrow
    rcases List.mem_pair.mp hrow with rfl | rfl
    · exact ⟨name, Or.inl rfl⟩
    · exact ⟨name, Or.inr rfl⟩
  rw [ownPage_of_unsent (accesses_renderInbox name) (unsent_renderInbox name) hmail,
    List.forall_mem_cons, List.forall_mem_singleton, inboxRow_mem_ownRows, sentRow_mem_ownRows,
    or_imp]

theorem ownPage_sendMessage {env : Surroundings} {sender recipient subject body : Bytes} :
    OwnPage master kvs username (sendMessage env sender recipient subject body) ↔
      sender = ownAddress username ∧ (isExternalEmail recipient = false →
        Reached master (inboxRow recipient) → recipient = ownAddress username) := by
  have hrows : Accesses master kvs (sendMessage env sender recipient subject body) _ :=
    accesses_sendMessage env sender recipient subject body
  have hsent := sentBy_sendMessage env sender recipient subject body
  constructor
  · intro h
    refine ⟨?_, fun hlocal hreach => ?_⟩
    · obtain ⟨page, hpage⟩ := MailEvent.run_sendMessage master kvs env sender recipient subject body
      have hok := congrArg Prod.fst hpage
      exact h.sender page sender hok (hsent.run (Call.exec master) hok)
    · refine inboxRow_mem_ownRows.mp (h.rows _ ((hrows _).mpr ⟨?_, hreach⟩) ⟨_, Or.inl rfl⟩)
      rw [hlocal, if_neg Bool.false_ne_true]
      exact List.mem_cons_self
  · rintro ⟨rfl, hrecipient⟩
    refine ⟨fun row hrow _ => ?_, fun page sender hpage hsender => ?_⟩
    · obtain ⟨hmem, hreach⟩ := (hrows row).mp hrow
      rcases List.mem_append.mp hmem with hinbox | hsentRow
      · split_ifs at hinbox with hexternal
        · cases hinbox
        · obtain rfl := List.mem_singleton.mp hinbox
          exact inboxRow_mem_ownRows.mpr (hrecipient (by simpa using hexternal) hreach)
      · obtain rfl := List.mem_singleton.mp hsentRow
        exact sentRow_mem_ownRows.mpr rfl
    · have hby := hsent.run (Call.exec master) hpage
      exact (Option.some.inj (hby.symm.trans hsender)).symm

end Own

/-- **A request stays with the mailboxes of the user exactly when its parameters name
the user.** -/
theorem ownMail_iff {master : Master} {kvs : Tablet} {env : Surroundings} {request username : Bytes}
    {branch : Branch} {p : Handler MailResponse}
    (hsession : ((getUsernameFromSession (extractSessionId request)).run (Call.exec master)
      kvs).1 = .ok username) (hne : username ≠ [])
    (hbranch : clientConnection request = some branch) (hp : mailRequest env request = some p) :
    OwnMail master kvs username p ↔ (Reached master (username ++ ascii "-email") →
      NamesUser master username request branch) := by
  rw [mailRequest, hbranch, Option.bind_some] at hp
  cases branch <;> cases hp
  · rw [ownMail_handleEmailService hsession hne, handleRequest_email]
    exact imp_congr_right fun _ =>
      ownPage_of_folder (accesses_viewEmail _ _ _) (unsent_viewEmail _ _ _)
  · rw [ownMail_handleEmailService hsession hne, handleRequest_delete]
    exact imp_congr_right fun _ =>
      ownPage_of_folder (accesses_deleteEmail _ _ _) (unsent_deleteEmail _ _ _)
  · rw [ownMail_handleEmailService hsession hne, handleRequest_send]
    exact imp_congr_right fun _ => ownPage_sendMessage
  · rw [ownMail_handleEmailService hsession hne, handleRequest_compose]
    refine imp_congr_right fun _ =>
      iff_of_true ⟨fun row hrow => ?_, fun page sender hpage => ?_⟩ trivial
    · cases hrow
    · cases hpage
      exact fun hsent => by cases hsent
  · rw [ownMail_session_bind hsession, ownMail_handleEmailService hsession hne, handleRequest_inbox]
    exact imp_congr_right fun _ => ownPage_renderInbox
  · rw [ownMail_handleEmailService hsession hne, handleRequest_reply]
    exact imp_congr_right fun _ =>
      ownPage_of_folder (accesses_renderReplyCompose _ _ _) (unsent_renderReplyCompose _ _ _)
  · rw [ownMail_handleEmailService hsession hne, handleRequest_forward]
    exact imp_congr_right fun _ =>
      ownPage_of_folder (accesses_renderForwardCompose _ _ _) (unsent_renderForwardCompose _ _ _)

/-! ### Two inboxes -/

/-- A store in which the session 7 is the one of `ann`. -/
def annsSession : Tablet := (∅ : Tablet).put sessionRow (ascii "7") (ascii "ann")

/-- A request of this session for an inbox. -/
def inboxRequest (query : String) : Bytes :=
  ascii ("GET /inbox" ++ query ++
    " HTTP/1.1\r\nConnection: keep-alive\r\nCookie: session_id=7\r\n\r\n")

example : extractSessionId (inboxRequest "") = ascii "7" := by decide +kernel

/-- Without a query the inbox is the own one. -/
theorem own_inbox : ∃ p, mailRequest ⟨[], true⟩ (inboxRequest "") = some p ∧
    OwnMail Master.first annsSession (ascii "ann") p := by
  have hbranch : clientConnection (inboxRequest "") = some .inbox := by decide +kernel
  have hp : mailRequest ⟨[], true⟩ (inboxRequest "") =
      mailBranch ⟨[], true⟩ (inboxRequest "") .inbox := by
    rw [mailRequest, hbranch, Option.bind_some]
  have hname : queryUsername (inboxQuery (inboxRequest "") (ascii "ann")) =
      ownAddress (ascii "ann") := by decide +kernel
  exact ⟨_, hp, (ownMail_iff (by decide +kernel) (by decide) hbranch hp).mpr fun _ _ => hname⟩

/-- **A user reads the inbox of another.** -/
theorem reads_foreign_inbox : ∃ p, mailRequest ⟨[], true⟩ (inboxRequest "?username=bob") = some p ∧
    ((getUsernameFromSession (extractSessionId (inboxRequest "?username=bob"))).run
      (Call.exec Master.first) annsSession).1 = .ok (ascii "ann") ∧
    inboxRow (ascii "bob@localhost") ∈ accessed Master.first annsSession p ∧
    ¬OwnMail Master.first annsSession (ascii "ann") p := by
  have hbranch : clientConnection (inboxRequest "?username=bob") = some .inbox := by decide +kernel
  have hp : mailRequest ⟨[], true⟩ (inboxRequest "?username=bob") =
      mailBranch ⟨[], true⟩ (inboxRequest "?username=bob") .inbox := by
    rw [mailRequest, hbranch, Option.bind_some]
  have hread : inboxRow (ascii "bob@localhost") ∈ accessed Master.first annsSession (do
      let username ← getUsernameFromSession (extractSessionId (inboxRequest "?username=bob"))
      handleEmailService ⟨[], true⟩ (extractSessionId (inboxRequest "?username=bob"))
        (ascii "/inbox") .get (inboxQuery (inboxRequest "?username=bob") username) []) := by
    decide +kernel
  refine ⟨_, hp, by decide +kernel, hread, fun h => ?_⟩
  exact absurd (h.rows _ hread ⟨_, Or.inl rfl⟩) (by decide)

end PennCloud
