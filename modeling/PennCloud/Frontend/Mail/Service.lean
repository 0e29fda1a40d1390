import PennCloud.Frontend.Fields
import PennCloud.Frontend.Sessions
import PennCloud.Frontend.Mail.Mailbox

/-!
# The web mail

`EmailService` of `frontend/email/email_service.cc`, and the way a request takes to
it: the branches of `client_connection` cut a query or a form out of the text,
`handleEmailService` looks up the session, and `handleRequest` reads the
parameters and calls one of the operations.

The operations are `PennCloud.Handler`s. A page is given by the data it is made of
(`PennCloud.MailPage`), without the markup around it. None of the pages begins with
`ERR`, so that the last test of `handleEmailService` never succeeds and is left
out.

A message for a recipient elsewhere is handed over to the mail server of
`PennCloud.Frontend.Mail.Smtp`. What is written to it is
`PennCloud.sendViaSMTP`.
-/

namespace PennCloud

open Wire Calls Text

/-! ### Parameters -/

/-- The loop of `parseQueryString`; the fuel is the length of the query. -/
def parseQueryStringAux : ℕ → Bytes → List (Bytes × Bytes)
  | 0, _ => []
  | fuel + 1, query =>
    match cut (ascii "=") query with
    | none => []
    | some (key, rest) =>
      match cut (ascii "&") rest with
      | none => [(key, rest)]
      | some (value, more) => (key, value) :: parseQueryStringAux fuel more

/-- `parseQueryString`: the assignments to the map, from the first to the last. -/
def parseQueryString (query : Bytes) : List (Bytes × Bytes) :=
  parseQueryStringAux query.length query

/-- What `istringstream >> hex` reads from two characters, as a `char`: blanks are
skipped, a sign is allowed, and reading stops at the first character that is no
digit. `0x` is taken for a base without digits. -/
def readHex (a b : UInt8) : Option UInt8 :=
  if isSpace a then if isSpace b then none else hexDigit b
  else if a = 43 then hexDigit b
  else if a = 45 then (hexDigit b).map fun d => 0 - d
  else
    match hexDigit a with
    | none => none
    | some d =>
      match hexDigit b with
      | some d' => some (16 * d + d')
      | none => if d = 0 && (b = 88 || b = 120) then none else some d

/-- `urlDecode`. -/
def urlDecode : Bytes → Bytes
  | [] => []
  | 37 :: a :: b :: src => (readHex a b).toList ++ urlDecode src
  | 43 :: src => 32 :: urlDecode src
  | c :: src => c :: urlDecode src

/-- `parseMetadata`: the assignments to the map. -/
def parseMetadata (metadata : Bytes) : List (Bytes × Bytes) :=
  (getlines 59 metadata).filterMap (cut (ascii ":"))

/-- A header of the message that an id stands for. -/
def header (emailId : Bytes) (key : String) : Bytes :=
  (param (parseMetadata (decryptMetadata emailId)) (ascii key)).getD []

/-! ### Pages -/

/-- A line of the table of a mailbox. -/
structure MailEntry where
  /-- The id, which the links carry. -/
  id : Bytes
  /-- The sender of a message received, the recipient of one sent. -/
  who : Bytes
  /-- The subject. -/
  subject : Bytes
  /-- The time. -/
  timestamp : Bytes
  deriving DecidableEq

/-- What a page is made of. -/
inductive MailPage where
  /-- The two tables of a user; nothing, where there are no messages. -/
  | inbox (username : Bytes) (received sent : Option (List MailEntry))
  /-- A message. -/
  | email (username folder emailId sender recipient subject timestamp body : Bytes)
  /-- The form for a new message. -/
  | compose (username : Bytes)
  /-- The form for a reply. -/
  | reply (username emailId replyTo subject body : Bytes)
  /-- The form for a message that is sent on. -/
  | forward (username emailId subject body : Bytes)
  /-- A message was sent: who to and from, and what could not be done. -/
  | sent (senderUsername recipient : Bytes) (inboxSuccess senderSuccess : Bool)
  /-- Any other text. -/
  | text (content : Bytes)
  deriving DecidableEq

/-- The row that a folder of a user is. -/
def folderRow (username folder : Bytes) : Bytes :=
  if folder = ascii "sent" then sentRow username else inboxRow username

/-! ### The operations -/

/-- A table of `renderInbox`. -/
def renderTable (row : Bytes) (who : String) : Handler (Option (List MailEntry)) := do
  let client ← getWorkerClient row
  let metaList ← clientGet client row metaColumn
  if isErr metaList || metaList.isEmpty then return none
  else return some ((metaIds metaList).map fun encId =>
    ⟨encId, header encId who, header encId "subject", header encId "timestamp"⟩)

/-- `renderInbox`. -/
def renderInbox (username : Bytes) : Handler MailPage := do
  let received ← renderTable (inboxRow username) "sender"
  let sent ← renderTable (sentRow username) "recipient"
  return .inbox username received sent

/-- `viewEmail`. -/
def viewEmail (username emailId folder : Bytes) : Handler MailPage := do
  let rowKey := folderRow username folder
  let client ← getWorkerClient rowKey
  let body ← clientGet client rowKey emailId
  if isErr body then return .text (ascii ("<html><body><h1>Error:</h1>" ++
    "<p>Email not found or failed to load.</p></body></html>"))
  else
    return .email username folder emailId (header emailId "sender") (header emailId "recipient")
      (header emailId "subject") (header emailId "timestamp") body

/-- `isExternalEmail`. -/
def isExternalEmail (email : Bytes) : Bool := !found "@localhost" email

/-- `sendViaSMTP`: the texts it writes to the mail server, once it is connected. -/
def sendViaSMTP (sender recipient subject body date : Bytes) : List Bytes :=
  let headers := ascii "From: " ++ sender ++ ascii "\n" ++ ascii "To: " ++ recipient ++
    ascii "\n" ++ ascii "Subject: " ++ subject ++ ascii "\n" ++ ascii "Date: " ++ date
  [ascii "HELO localhost" ++ crlf,
    ascii "MAIL FROM:<" ++ sender ++ ascii ">" ++ crlf,
    ascii "RCPT TO:<" ++ recipient ++ ascii ">" ++ crlf,
    ascii "DATA" ++ crlf,
    headers ++ crlf ++ crlf ++ body ++ crlf ++ ascii "." ++ crlf,
    ascii "QUIT" ++ crlf]

/-- A message is put into a mailbox, and its id into the list if that worked. -/
def storeEmail (row emailId body : Bytes) : Handler Bool := do
  let client ← getWorkerClient row
  let result ← clientPut client row emailId body
  if isErr result then return false
  else
    appendToMetadata row emailId
    return true

/-- What `sendEmail` finds: the time, in the format of the ids, and whether it can
connect to the mail server. -/
structure Surroundings where
  /-- The time. -/
  timestamp : Bytes
  /-- Whether `sendViaSMTP` succeeds. -/
  connected : Bool

/-- The fields of a form. -/
def formField (postData : Bytes) (key : String) : Bytes :=
  ((param (parseQueryString postData) (ascii key)).map urlDecode).getD []

/-- `sendEmail`, from where the form has been read. -/
def sendMessage (env : Surroundings) (sender recipient subject body : Bytes) :
    Handler MailPage := do
  let encryptedMetadata := emailId sender recipient subject env.timestamp
  let inboxSuccess ←
    if isExternalEmail recipient then pure env.connected
    else storeEmail (inboxRow recipient) encryptedMetadata body
  let senderSuccess ← storeEmail (sentRow sender) encryptedMetadata body
  return .sent sender recipient inboxSuccess senderSuccess

/-- `sendEmail`. -/
def sendEmail (env : Surroundings) (postData : Bytes) : Handler MailPage :=
  sendMessage env (formField postData "username") (formField postData "to")
    (formField postData "subject") (formField postData "body")

/-- The original message, for the two forms that quote it. -/
def originalBody (username emailId folder : Bytes) : Handler Bytes := do
  let rowKey := folderRow username folder
  let client ← getWorkerClient rowKey
  let body ← clientGet client rowKey emailId
  return if isErr body then ascii "[Original message not available]" else body

/-- A subject with a word before it, unless it begins with it. -/
def marked (word : String) (subject : Bytes) : Bytes :=
  if (ascii word).isPrefixOf subject then subject else ascii word ++ ascii " " ++ subject

/-- `renderReplyCompose`. -/
def renderReplyCompose (username emailId folder : Bytes) : Handler MailPage := do
  let body ← originalBody username emailId folder
  let subject := header emailId "subject"
  let quotedBody := ascii "\n\n---------- Original Message ----------\nFrom: " ++
    header emailId "sender" ++ ascii "\nSubject: " ++ subject ++ ascii "\n\n" ++ body
  return .reply username emailId (header emailId "sender") (marked "Re:" subject) quotedBody

/-- `renderForwardCompose`. -/
def renderForwardCompose (username emailId folder : Bytes) : Handler MailPage := do
  let body ← originalBody username emailId folder
  let subject := header emailId "subject"
  let quotedBody := ascii "\n\n---------- Forwarded Message ----------\nFrom: " ++
    header emailId "sender" ++ ascii "\nSubject: " ++ subject ++ ascii "\nDate: " ++
    header emailId "timestamp" ++ ascii "\n\n" ++ body
  return .forward username emailId (marked "Fwd:" subject) quotedBody

/-- `deleteEmail`. -/
def deleteEmail (username emailId folder : Bytes) : Handler MailPage := do
  let rowKey := folderRow username folder
  let client ← getWorkerClient rowKey
  let res ← clientDelete client rowKey emailId
  if isErr res then return .text (ascii ("<html><body><h1>Error:</h1>" ++
    "<p>Delete failed: email not found or server error.</p></body></html>"))
  else
    removeFromMetadata rowKey emailId
    return .text (ascii "Email deleted successfully!")

/-! ### Requests -/

/-- The method of a request, as the branches name it. -/
inductive ReqType where
  | get | post
  deriving DecidableEq

/-- The user that a query is about. -/
def queryUsername (queryStr : Bytes) : Bytes :=
  let username := ((param (parseQueryString queryStr) (ascii "username")).map urlDecode).getD
    (ascii "test")
  if 64 ∈ username then username else username ++ ascii "@localhost"

/-- The folder that a query is about; it is not decoded. -/
def queryFolder (queryStr : Bytes) : Bytes :=
  (param (parseQueryString queryStr) (ascii "folder")).getD (ascii "inbox")

/-- The message that a query is about. -/
def queryEmailId (queryStr : Bytes) : Bytes :=
  ((param (parseQueryString queryStr) (ascii "id")).map urlDecode).getD (ascii "1")

/-- `handleRequest`. -/
def handleRequest (env : Surroundings) (path : Bytes) (reqType : ReqType)
    (queryStr postData : Bytes) : Handler MailPage :=
  let username := queryUsername queryStr
  let folder := queryFolder queryStr
  let emailId := queryEmailId queryStr
  if path = ascii "/inbox" ∧ reqType = .get then renderInbox username
  else if path = ascii "/send" ∧ reqType = .post then sendEmail env postData
  else if path = ascii "/email" ∧ reqType = .get then viewEmail username emailId folder
  else if path = ascii "/compose" ∧ reqType = .get then return .compose username
  else if path = ascii "/delete" ∧ reqType = .post then deleteEmail username emailId folder
  else if path = ascii "/reply" ∧ reqType = .get then renderReplyCompose username emailId folder
  else if path = ascii "/forward" ∧ reqType = .get then
    renderForwardCompose username emailId folder
  else return .text (ascii "Invalid path")

end PennCloud
