import PennCloud.Frontend.Mail.FormFields
import PennCloud.Frontend.Mail.Ownership

/-!
# How a message is sent

The browser sends a message as a form, and the form arrives when it arrives:
`client_connection` takes what one `recv` returned for the whole request, at most 1999
bytes, and what the next `recv` returns for the next request. No `Content-Length` is
looked at. So `sendEmail` stores what there is of the body in the first piece, and the
rest of it is read as a request that does not keep the connection, which is closed.

`PennCloud.submission_complete_iff` says that a message is sent as it was written, with
nothing left over, exactly when its request arrives in one piece. For that all that lies
between the form and the mailbox has to be gone through, from the branch of the loop
(`PennCloud.requestBody_of_head`) over the fields of the form (`PennCloud.formField_encoded`)
to the call on the store (`PennCloud.mem_calls_sendMessage`).
-/

namespace PennCloud

open Wire Calls Text FormCoding

/-! ### Requests of the web mail -/

/-- What the web mail does for the requests of a connection. -/
def mailConnection (env : Surroundings) (pieces : List Bytes) : Handler Unit :=
  Prog.each (fun request =>
    match mailRequest env request with
    | none => return ()
    | some p => do
      let _ ← p
      return ()) (requestsRead pieces)

/-- The request of a form behind its first line and its headers. -/
def submissionText (head postData : Bytes) : Bytes := head ++ (crlf ++ crlf ++ postData)

/-- **A form that is sent**: its fields are encoded as they should be, and the request
is one for `/send` on a connection that is kept. -/
structure Submission (head : Bytes) (fields : List (Bytes × Bytes)) (postData : Bytes) : Prop where
  /-- The blank line behind the headers is the first. -/
  noBlank : FirstBehind (crlf ++ crlf) head
  /-- The headers are text. -/
  noNul : 0 ∉ head
  /-- The keys are plain. -/
  keys : ∀ f ∈ fields, PlainKey f.1
  /-- Every key is there once. -/
  nodup : (fields.map Prod.fst).Nodup
  /-- The fields are encoded. -/
  coded : EncodesForm fields postData
  /-- The loop selects the branch of `/send`. -/
  branch : clientConnection (submissionText head postData) = some .send

section Submission

variable {head postData : Bytes} {fields : List (Bytes × Bytes)}

theorem requestBody_of_head (h : FirstBehind (crlf ++ crlf) head) (postData : Bytes) :
    requestBody (submissionText head postData) = postData := by
  rw [requestBody, submissionText, cut_of_firstBehind h]
  rfl

/-- A form that is sent has no NUL. -/
theorem Submission.notMem (h : Submission head fields postData) :
    0 ∉ submissionText head postData := by
  have hcoded := h.coded.encodes h.keys
  have hdata : 0 ∉ postData := by
    intro hmem
    rcases hcoded.mem hmem with (h | h | h) | h | h | h
    all_goals exact absurd h (by decide)
  simp only [submissionText, List.mem_append, not_or]
  exact ⟨h.noNul, ⟨by decide, by decide⟩, hdata⟩

/-- In one piece it is a request, and there is no other. -/
theorem Submission.requestsRead_eq (h : Submission head fields postData) :
    requestsRead [submissionText head postData] = [submissionText head postData] := by
  have hne : submissionText head postData ≠ [] := by simp [submissionText, crlf]
  rw [requestsRead, if_neg hne, textOf_of_notMem h.notMem, h.branch]
  rfl

end Submission

/-! ### From the form to the mailbox -/

section Calls

variable {master : Master} {kvs : Tablet}

variable (master kvs) in
/-- A message with the body is put into the inbox of the recipient. -/
def PutsIntoInbox {α : Type} (p : Handler α) (timestamp recipient body : Bytes) : Prop :=
  ∃ sender subject, Call.update (.put (inboxRow recipient)
    (emailId sender recipient subject timestamp) body) ∈ p.calls (Call.exec master) kvs

theorem mem_calls_storeEmail {row : Bytes} (id body : Bytes) (hreach : Reached master row) :
    Call.update (.put row id body) ∈ (storeEmail row id body).calls (Call.exec master) kvs := by
  have hclient : isErr (clientText (master row)) = false := hreach
  have hcalls : (storeEmail row id body).calls (Call.exec master) kvs = Call.lookup row ::
      ((clientPut (!isErr (clientText (master row))) row id body >>= fun result =>
        if isErr result then pure false
        else appendToMetadata row id >>= fun _ => pure true).calls (Call.exec master) kvs) := rfl
  rw [hcalls, hclient]
  exact List.mem_cons_of_mem _ List.mem_cons_self

/-- **What `sendEmail` makes of the fields**, for a recipient at `localhost`. -/
theorem mem_calls_sendMessage (env : Surroundings) {recipient : Bytes}
    (hlocal : isExternalEmail recipient = false) (hreach : Reached master (inboxRow recipient))
    (sender subject body : Bytes) :
    Call.update (.put (inboxRow recipient) (emailId sender recipient subject env.timestamp) body) ∈
      (sendMessage env sender recipient subject body).calls (Call.exec master) kvs := by
  rw [sendMessage, if_neg (by rw [hlocal]; exact Bool.false_ne_true),
    Prog.calls_bind_of_ok (Call.exec master) (run_storeEmail master kvs _ _ _)]
  exact List.mem_append_left _ (mem_calls_storeEmail _ body hreach)

/-- **The service for a user** does what the path asks for. -/
theorem mem_calls_handleEmailService (hup : master.Up) {env : Surroundings}
    {sessionId username path queryParams data : Bytes} {reqType : ReqType}
    (hsession : ((getUsernameFromSession sessionId).run (Call.exec master) kvs).1 = .ok username)
    (hne : username ≠ []) {c : Call}
    (hc : c ∈ (handleRequest env path reqType queryParams data).calls (Call.exec master) kvs) :
    c ∈ (handleEmailService env sessionId path reqType queryParams data).calls
      (Call.exec master) kvs := by
  have hrun : (getUsernameFromSession sessionId).run (Call.exec master) kvs = (.ok username, kvs) :=
    Prod.ext hsession (by rw [run_getUsernameFromSession kvs hup])
  rw [handleEmailService, Prog.calls_bind_of_ok (Call.exec master) hrun,
    if_neg (by simpa using hne)]
  have hworker := isErr_lookup hup (username ++ ascii "-email")
  have hcalls : (handleRequest env path reqType queryParams data >>= fun page =>
      pure (MailResponse.page page)).calls (Call.exec master) kvs =
        (handleRequest env path reqType queryParams data).calls (Call.exec master) kvs :=
    Prog.calls_bind_pure (Call.exec master) _ _ kvs
  refine List.mem_append_right _ (List.mem_cons_of_mem _ ?_)
  show c ∈ (if isErr (clientText (master (username ++ ascii "-email"))) = true then
    (return .unavailable : Handler MailResponse)
    else handleRequest env path reqType queryParams data >>= fun page =>
      pure (MailResponse.page page)).calls (Call.exec master) kvs
  rw [hworker, if_neg Bool.false_ne_true, hcalls]
  exact hc

/-- A request that is not sent on makes no calls. -/
theorem calls_mailConnection_of_none {env : Surroundings} {piece : Bytes} {pieces : List Bytes}
    (h : clientConnection (textOf piece) = none) :
    (mailConnection env (piece :: pieces)).calls (Call.exec master) kvs = [] := by
  rw [mailConnection, requestsRead]
  split_ifs
  · rfl
  · rw [Prog.each_cons, mailRequest, h]
    rfl

/-- **What is stored of the first piece**, whatever comes behind it: what is in it of the
body, for what is in it of the recipient. -/
theorem puts_first_piece (hup : master.Up) (env : Surroundings) {username piece : Bytes}
    {pieces : List Bytes} (hpiece : piece ≠ [])
    (hsend : clientConnection (textOf piece) = some .send)
    (hsession : ((getUsernameFromSession (extractSessionId (textOf piece))).run
      (Call.exec master) kvs).1 = .ok username) (hne : username ≠ [])
    (hlocal : isExternalEmail (formField (requestBody (textOf piece)) "to") = false) :
    PutsIntoInbox master kvs (mailConnection env (piece :: pieces)) env.timestamp
      (formField (requestBody (textOf piece)) "to")
      (formField (requestBody (textOf piece)) "body") := by
  have hp : mailRequest env (textOf piece) = some (handleEmailService env
      (extractSessionId (textOf piece)) (ascii "/send") .post [] (requestBody (textOf piece))) := by
    rw [mailRequest, hsend, Option.bind_some, mailBranch]
  refine ⟨formField (requestBody (textOf piece)) "username",
    formField (requestBody (textOf piece)) "subject", ?_⟩
  rw [mailConnection, requestsRead, if_neg hpiece, Prog.each_cons, hp]
  refine Prog.mem_calls_bind _ _ (Prog.mem_calls_bind _ _ ?_)
  refine mem_calls_handleEmailService hup hsession hne ?_
  rw [handleRequest_send, sendEmail]
  exact mem_calls_sendMessage env hlocal (isErr_lookup hup _) _ _ _

end Calls

/-- **A form is sent completely** – an email with its body comes into the inbox of the
recipient, and nothing that remains of the request is read as another one – if and only
if its request arrives in one piece. -/
theorem submission_complete_iff {master : Master} (hup : master.Up) (kvs : Tablet)
    (env : Surroundings) {head postData username : Bytes} {fields : List (Bytes × Bytes)}
    {pieces : List Bytes} (hform : Submission head fields postData)
    (harrives : Arrives (submissionText head postData) pieces)
    (hsession : ((getUsernameFromSession (extractSessionId (submissionText head postData))).run
      (Call.exec master) kvs).1 = .ok username) (hne : username ≠ [])
    (hlocal : isExternalEmail ((fields.lookup (ascii "to")).getD []) = false) :
    (PutsIntoInbox master kvs (mailConnection env pieces) env.timestamp
        ((fields.lookup (ascii "to")).getD []) ((fields.lookup (ascii "body")).getD []) ∧
      (requestsRead pieces).tail = []) ↔
    pieces = [submissionText head postData] := by
  have hrequest : submissionText head postData ≠ [] := by simp [submissionText, crlf]
  constructor
  · rintro ⟨⟨sender, subject, hput⟩, hrest⟩
    rcases pieces with _ | ⟨piece, pieces⟩
    · exact absurd harrives.flatten.symm hrequest
    have hpiece : piece ≠ [] := harrives.ne_nil piece List.mem_cons_self
    have hkept : clientConnection (textOf piece) ≠ none := by
      intro hnone
      rw [calls_mailConnection_of_none hnone] at hput
      exact absurd hput List.not_mem_nil
    -- the connection is kept, so the next piece would be a request
    have hnil : pieces = [] := by
      rw [requestsRead, if_neg hpiece, if_neg hkept, List.tail_cons] at hrest
      rcases pieces with _ | ⟨piece', pieces⟩
      · rfl
      · rw [requestsRead, if_neg (harrives.ne_nil piece' (by simp))] at hrest
        exact absurd hrest (List.cons_ne_nil _ _)
    subst hnil
    rw [← harrives.flatten, List.flatten_cons, List.flatten_nil, List.append_nil]
  · rintro rfl
    have hfield := formField_encoded hform.keys hform.nodup hform.coded
    have hbody := requestBody_of_head hform.noBlank postData
    have htext := textOf_of_notMem hform.notMem
    constructor
    · have hput := @puts_first_piece master kvs hup env username _ [] hrequest
        (by rw [htext, hform.branch]) (by rwa [htext]) hne (by rwa [htext, hbody, hfield "to"])
      rwa [htext, hbody, hfield "to", hfield "body"] at hput
    · rw [hform.requestsRead_eq]
      rfl

/-! ### A form of three fields -/

/-- The first line and the headers of a form that is sent in the session of `ann`. -/
def sendHead : Bytes :=
  ascii "POST /send HTTP/1.1\r\nConnection: keep-alive\r\nCookie: session_id=7"

/-- A message from `ann` to `bob`. -/
def helloFields : List (Bytes × Bytes) :=
  [(ascii "to", ascii "bob@localhost"), (ascii "username", ascii "ann@localhost"),
    (ascii "body", ascii "hello")]

/-- The form as it is sent. -/
def helloForm : Bytes := ascii "to=bob%40localhost&username=ann%40localhost&body=hello"

example : extractSessionId (submissionText sendHead helloForm) = ascii "7" := by decide +kernel

theorem helloForm_encoded : EncodesForm helloFields helloForm := by
  have haddress : ∀ name : Bytes, PlainKey name →
      Encodes (fun c => isPlain c = true) (name ++ 64 :: ascii "localhost")
        (name ++ 37 :: 52 :: 48 :: ascii "localhost") := fun name hname =>
    (Encodes.of_forall hname).append
      (.escape (by decide) (by decide) (Encodes.of_forall (by decide +kernel)))
  exact ⟨[(ascii "to", ascii "bob%40localhost"), (ascii "username", ascii "ann%40localhost"),
    (ascii "body", ascii "hello")], .cons ⟨rfl, haddress (ascii "bob") (by decide)⟩
      (.cons ⟨rfl, haddress (ascii "ann") (by decide)⟩
        (.cons ⟨rfl, Encodes.of_forall (by decide +kernel)⟩ .nil)), by decide +kernel⟩

theorem submission_hello : Submission sendHead helloFields helloForm where
  noBlank := fun h => absurd (isSome_cut.mpr h) (by decide +kernel)
  noNul := by decide +kernel
  keys := by decide
  nodup := by decide
  coded := helloForm_encoded
  branch := by decide +kernel

theorem session_hello :
    ((getUsernameFromSession (extractSessionId (submissionText sendHead helloForm))).run
      (Call.exec Master.first) annsSession).1 = .ok (ascii "ann") := by decide +kernel

/-- In one piece it is sent. -/
theorem hello_complete :
    PutsIntoInbox Master.first annsSession
        (mailConnection ⟨[], true⟩ [submissionText sendHead helloForm]) []
        (ascii "bob@localhost") (ascii "hello") ∧
      (requestsRead [submissionText sendHead helloForm]).tail = [] :=
  (submission_complete_iff Master.up_first annsSession ⟨[], true⟩ submission_hello
    ⟨by decide +kernel, by decide +kernel, by decide +kernel⟩ session_hello (by decide)
    (by decide)).mpr rfl

/-- The value that a call puts into a column. -/
def Call.value : Call → Option Bytes
  | .update (.put _ _ value) => some value
  | _ => none

/-- The first of two pieces: two characters are missing. -/
def cutHello : Bytes := (submissionText sendHead helloForm).dropLast.dropLast

/-- **In two pieces it is not**: what is stored ends with the first piece, and the two
characters are read as a request. -/
theorem hello_cut :
    Submission sendHead helloFields helloForm ∧
      Arrives (submissionText sendHead helloForm) [cutHello, ascii "lo"] ∧
      PutsIntoInbox Master.first annsSession (mailConnection ⟨[], true⟩ [cutHello, ascii "lo"]) []
        (ascii "bob@localhost") (ascii "hel") ∧
      ¬PutsIntoInbox Master.first annsSession (mailConnection ⟨[], true⟩ [cutHello, ascii "lo"])
        [] (ascii "bob@localhost") (ascii "hello") ∧
      requestsRead [cutHello, ascii "lo"] = [cutHello, ascii "lo"] := by
  refine ⟨submission_hello, ⟨by decide +kernel, by decide +kernel, by decide +kernel⟩, ?_, ?_,
    by decide +kernel⟩
  · have hto : formField (requestBody (textOf cutHello)) "to" = ascii "bob@localhost" := by
      decide +kernel
    have hbody : formField (requestBody (textOf cutHello)) "body" = ascii "hel" := by
      decide +kernel
    have hput := @puts_first_piece _ annsSession Master.up_first
      ⟨[], true⟩ _ _ [ascii "lo"] (by decide +kernel) (by decide +kernel)
      (by decide +kernel : ((getUsernameFromSession (extractSessionId (textOf cutHello))).run
        (Call.exec Master.first) annsSession).1 = .ok (ascii "ann")) (by decide)
      (by rw [hto]; decide)
    rwa [hto, hbody] at hput
  · rintro ⟨sender, subject, hput⟩
    have hvalue := List.mem_filterMap.mpr ⟨_, hput, (rfl : Call.value _ = some _)⟩
    exact absurd hvalue (by decide +kernel)

example : cutHello ++ ascii "lo" = submissionText sendHead helloForm := by decide +kernel

end PennCloud
