import PennCloud.Lib.Lines
import PennCloud.Frontend.Dispatch
import PennCloud.Frontend.Mail.Mailbox
import Mathlib.Data.List.DropRight

/-!
# The mail server

`SMTPServer::handle_client` of `frontend/email/smtp_server.cc`: one connection,
served from its welcome to the end. The text that arrives is cut at the ends of
lines, a line is trimmed, and what it does depends on the mode. Outside DATA mode
it is a command. In DATA mode it belongs to the message, until a line with a
single dot ends the mode and the message is stored, for the recipients at
`localhost`, and relayed, for the others.

`PennCloud.Smtp.Session` is what the loop keeps in its local variables,
`PennCloud.Smtp.handleLine` what one line does, and `PennCloud.Smtp.handleClient`
the whole connection, an instance of the machine of `PennCloud.Lib.Lines`. What
the server does to the outside is a list of `PennCloud.Smtp.Output`; the calls on
the store that a delivery consists of are `PennCloud.Smtp.Output.calls`.

The clock, `rand()` and the network are what they are when a line is worked on,
`PennCloud.Smtp.Moment`; everything said here is said for all of them.
-/

namespace PennCloud

namespace Smtp

open Wire Calls Text Lines

/-! ### Text -/

/-- `ltrim`. -/
def ltrim (s : Bytes) : Bytes := s.dropWhile isSpace

/-- `rtrim`. -/
def rtrim (s : Bytes) : Bytes := s.rdropWhile isSpace

/-- `trim`. -/
def trim (s : Bytes) : Bytes := rtrim (ltrim s)

/-- `toupper`. -/
def toUpper (b : UInt8) : UInt8 := if 97 ≤ b && b ≤ 122 then b - 32 else b

/-- What precedes the first blank of a line. -/
def cmdPart (line : Bytes) : Bytes := line.takeWhile (· ≠ 32)

/-- What follows the first blank of a line. -/
def messagePart (line : Bytes) : Bytes :=
  if line.length > (cmdPart line).length then line.drop ((cmdPart line).length + 1) else []

/-- The commands. -/
inductive Verb where
  | helo | mail | rcpt | data | noop | rset | quit | unknown
  deriving DecidableEq

/-- The command that a word stands for, in any case. -/
def Verb.ofWord (word : Bytes) : Verb :=
  let word := word.map toUpper
  if word = ascii "HELO" then .helo
  else if word = ascii "MAIL" then .mail
  else if word = ascii "RCPT" then .rcpt
  else if word = ascii "DATA" then .data
  else if word = ascii "NOOP" then .noop
  else if word = ascii "RSET" then .rset
  else if word = ascii "QUIT" then .quit
  else .unknown

/-- The argument of `MAIL FROM:` or `RCPT TO:`, trimmed. -/
def argument (keyword message : Bytes) : Bytes := trim (message.drop keyword.length)

/-- Whether an argument stands in angle brackets. -/
def bracketed (argument : Bytes) : Bool :=
  argument.head? == some 60 && argument.getLast? == some 62

/-- An argument without its angle brackets; all of them go. -/
def unbracket (argument : Bytes) : Bytes := (argument.filter (· ≠ 60)).filter (· ≠ 62)

/-- Whether an address is one of this server: the first `@localhost` in it is at
its end. -/
def isLocal (address : Bytes) : Bool := (cut (ascii "@localhost") address).any (·.2.isEmpty)

/-! ### The state of a connection -/

/-- The local variables of `handle_client`, without the buffer. -/
structure Session where
  /-- The sender; while `MAIL` is worked on also its argument. -/
  senderEmail : Bytes
  /-- The recipients at `localhost`. -/
  validRecipients : List Bytes
  /-- The other recipients. -/
  nonLocalRecipients : List Bytes
  /-- Whether lines belong to a message. -/
  isDataRecptMode : Bool
  /-- Whether lines still belong to the headers of the message. -/
  inHeaderSection : Bool
  /-- The headers of the message. -/
  headersBlock : Bytes
  /-- Its body. -/
  bodyBlock : Bytes
  deriving DecidableEq

/-- A connection that has just been opened. -/
def Session.fresh : Session := ⟨[], [], [], false, true, [], []⟩

/-- Why a message could not be relayed. -/
inductive RelayFailure where
  | mxRecord | host | socket | connect
  deriving DecidableEq

/-- The reason that is given to the sender. -/
def RelayFailure.reason : RelayFailure → Bytes
  | .mxRecord => ascii "MX record not found"
  | .host => ascii "host not found"
  | .socket => ascii "socket creation failed"
  | .connect => ascii "SMTP connect failed"

/-- What comes of looking for the server of a domain and connecting to it. -/
inductive Relay where
  /-- It fails; the notice to the sender is written at the given time. -/
  | failed (why : RelayFailure) (timestamp : Bytes)
  /-- There is a connection to the server. -/
  | connected (mxHost : Bytes)
  deriving DecidableEq

/-- The surroundings while a line is worked on. -/
structure Moment where
  /-- `time(nullptr)`. -/
  now : ℕ
  /-- The same in the format of the `Date` header. -/
  date : Bytes
  /-- The same in the format of the ids. -/
  timestamp : Bytes
  /-- What `rand()` returns. -/
  rand : ℕ
  /-- What comes of relaying to a domain, for the first of the recipients, the
  second, and so on. -/
  relay : ℕ → Bytes → Relay

/-- What the server does to the outside. -/
inductive Output where
  /-- A text is sent to the client. -/
  | reply (text : Bytes)
  /-- The message is handed to the store for a recipient at `localhost`; what the store answers
  is not looked at. -/
  | deliver (sender recipient subject timestamp body : Bytes)
  /-- Texts are sent to the server of another recipient. -/
  | relay (recipient mxHost : Bytes) (relayPort : ℕ) (texts : List Bytes)
  /-- The sender is told that the message could not be relayed. -/
  | bounce (sender recipient reason timestamp : Bytes)
  deriving DecidableEq

/-! ### The end of a message -/

section EndOfData

variable (moment : Moment) (st : Session)

/-- The subject: what the first line of the headers that begins with `Subject:`
says. -/
def subjectOf (headers : Bytes) : Bytes :=
  match (getlines 10 headers).find? (ascii "Subject:").isPrefixOf with
  | some headerLine => trim (headerLine.drop 8)
  | none => ascii "No Subject"

/-- A header, if the word it begins with does not occur yet. -/
def autoFill (word : String) (value headers : Bytes) : Bytes :=
  if found word headers then headers else headers ++ ascii word ++ ascii " " ++ value ++ ascii "\n"

/-- The `To` header, for the first recipient. -/
def autoFillTo (headers : Bytes) : Bytes :=
  match st.validRecipients, st.nonLocalRecipients with
  | recipient :: _, _ => autoFill "To:" recipient headers
  | [], recipient :: _ => autoFill "To:" recipient headers
  | [], [] => headers

/-- What follows the first `@` of the sender; everything, when there is none. -/
def senderDomain (sender : Bytes) : Bytes := ((cut (ascii "@") sender).map Prod.snd).getD sender

/-- The headers with those that were missing, and a message id. -/
def filledHeaders : Bytes :=
  autoFill "Date:" moment.date (autoFillTo st (autoFill "From:" st.senderEmail st.headersBlock)) ++
    ascii "Message-ID: " ++ (ascii "<" ++ decimal moment.now ++ ascii "." ++
      decimal (moment.rand % 10000) ++ ascii "@" ++ senderDomain st.senderEmail ++ ascii ">") ++
    ascii "\n"

/-- The message is stored for a recipient at `localhost`. -/
def deliverTo (recipient : Bytes) : Output :=
  .deliver st.senderEmail recipient (subjectOf st.headersBlock) moment.timestamp st.bodyBlock

/-- The sender as other servers are told it. -/
def rewrittenSender (sender : Bytes) : Bytes :=
  match cut (ascii "@localhost") sender with
  | some (before, after) => before ++ ascii "@seas.upenn.edu" ++ after
  | none => sender

/-- The texts sent to another server. -/
def relayTexts (recipient : Bytes) : List Bytes :=
  [ascii "HELO seas.upenn.edu" ++ crlf,
    ascii "MAIL FROM:<" ++ rewrittenSender st.senderEmail ++ ascii ">" ++ crlf,
    ascii "RCPT TO:<" ++ recipient ++ ascii ">" ++ crlf,
    ascii "DATA" ++ crlf,
    filledHeaders moment st ++ crlf ++ crlf ++ st.bodyBlock ++ crlf ++ ascii "." ++ crlf,
    ascii "QUIT" ++ crlf]

/-- The port of another server. -/
def relayPort (mxHost : Bytes) : ℕ := if mxHost = ascii "127.0.0.1" then 2525 else 25

/-- The message is relayed to a recipient elsewhere, the `k`-th of them; nothing
is done for an address without `@`. -/
def relayTo (k : ℕ) (recipient : Bytes) : List Output :=
  match cut (ascii "@") recipient with
  | none => []
  | some (_, domain) =>
    match moment.relay k domain with
    | .failed why timestamp => [.bounce st.senderEmail recipient why.reason timestamp]
    | .connected mxHost =>
      [.relay recipient mxHost (relayPort mxHost) (relayTexts moment st recipient)]

/-- The message is relayed to all recipients elsewhere. -/
def relayAll : ℕ → List Bytes → List Output
  | _, [] => []
  | k, recipient :: recipients => relayTo moment st k recipient ++ relayAll (k + 1) recipients

/-- A line with a single dot. The recipients elsewhere are not forgotten. -/
def endOfData (extraCreditNonLocal : Bool) : List Output × Session :=
  let st' := { st with isDataRecptMode := false }
  if st.validRecipients.isEmpty && st.nonLocalRecipients.isEmpty then
    ([.reply (ascii "550 Requested action not taken: no valid recipients\r\n")], st')
  else
    (st.validRecipients.map (deliverTo moment st) ++
        (if extraCreditNonLocal then relayAll moment st 0 st.nonLocalRecipients else []) ++
        [.reply (ascii "250 Data input complete. Exiting DATA mode.\r\n")],
      { st' with validRecipients := [], headersBlock := [], bodyBlock := [] })

/-- Any other line of a message. -/
def dataLine (currentCommand : Bytes) : Session :=
  if st.inHeaderSection then
    let trimmed := trim currentCommand
    if trimmed.isEmpty then { st with inHeaderSection := false }
    else if trimmed.contains 58 then
      { st with headersBlock := st.headersBlock ++ currentCommand ++ ascii "\n" }
    else
      { st with
        inHeaderSection := false
        bodyBlock := st.bodyBlock ++ currentCommand ++ ascii "\n" }
  else { st with bodyBlock := st.bodyBlock ++ currentCommand ++ ascii "\n" }

end EndOfData

/-! ### Commands -/

section Commands

variable (st : Session)

/-- `MAIL`. The argument is kept as the sender also when it is refused. -/
def mailFrom (message : Bytes) : Bytes × Session :=
  if (ascii "FROM:").isPrefixOf message then
    let arg := argument (ascii "FROM:") message
    if bracketed arg then
      (ascii "250 OK\r\n",
        { st with senderEmail := unbracket arg, validRecipients := [], nonLocalRecipients := [] })
    else
      (ascii ("500 Syntax error, command format unrecognized. " ++
        "Use format MAIL FROM:<youremail>\r\n"), { st with senderEmail := arg })
  else (ascii "500 Syntax error, command format unrecognized\r\n", st)

/-- `RCPT`. -/
def rcptTo (extraCreditNonLocal : Bool) (message : Bytes) : Bytes × Session :=
  if st.senderEmail.isEmpty then
    (ascii "503 Bad sequence of commands: MAIL FROM required before RCPT TO\r\n", st)
  else if (ascii "TO:").isPrefixOf message then
    let arg := argument (ascii "TO:") message
    if bracketed arg then
      let recipientEmail := unbracket arg
      if isLocal recipientEmail then
        (ascii "250 OK\r\n", { st with validRecipients := st.validRecipients ++ [recipientEmail] })
      else if extraCreditNonLocal then
        (ascii "250 OK\r\n",
          { st with nonLocalRecipients := st.nonLocalRecipients ++ [recipientEmail] })
      else (ascii "550 Requested action not taken: unavailable\r\n", st)
    else (ascii "500 Syntax error, command format unrecognized\r\n", st)
  else (ascii "500 Syntax error, command format unrecognized\r\n", st)

/-- `DATA`. -/
def data (extraCreditNonLocal : Bool) : Bytes × Session :=
  if st.senderEmail.isEmpty then
    (ascii "503 Bad sequence of commands: MAIL FROM required first\r\n", st)
  else if st.validRecipients.isEmpty &&
      (!extraCreditNonLocal || st.nonLocalRecipients.isEmpty) then
    (ascii "503 Bad sequence of commands: RCPT TO required first\r\n", st)
  else
    (ascii "354 Start mail input; end with <CRLF>.<CRLF>\r\n",
      { st with isDataRecptMode := true, inHeaderSection := true, headersBlock := [],
                bodyBlock := [] })

/-- `RSET`. The recipients elsewhere are not forgotten. -/
def rset : Session :=
  { st with senderEmail := [], validRecipients := [], headersBlock := [], bodyBlock := [],
            isDataRecptMode := false }

/-- A line outside DATA mode: the answer and the state, unless the session ends. -/
def command (extraCreditNonLocal : Bool) (currentCommand : Bytes) : Bytes × Option Session :=
  let message := messagePart currentCommand
  match Verb.ofWord (cmdPart currentCommand) with
  | .helo => (ascii "250 localhost HELO " ++ message ++ ascii ". Happy to meet you\r\n", some st)
  | .mail => ((mailFrom st message).1, some (mailFrom st message).2)
  | .rcpt =>
    ((rcptTo st extraCreditNonLocal message).1, some (rcptTo st extraCreditNonLocal message).2)
  | .data => ((data st extraCreditNonLocal).1, some (data st extraCreditNonLocal).2)
  | .noop => (ascii "250 OK\r\n", some st)
  | .rset => (ascii "250 OK\r\n", some (rset st))
  | .quit => (ascii "221 localhost SMTP Service Closing transmission!\r\n", none)
  | .unknown => (ascii "500 Syntax error, Unknown command\r\n", some st)

end Commands

/-! ### The connection -/

/-- `BUFFER_LENGTH`. -/
def bufferLength : ℕ := 1024

/-- What one line does. -/
def handleLine (extraCreditNonLocal : Bool) (moment : Moment) (st : Session) (line : Bytes) :
    List Output × Option Session :=
  let currentCommand := trim line
  if currentCommand.isEmpty then ([], some st)
  else if currentCommand.length > bufferLength then
    ([.reply (ascii "-ERR Command given too long\r\n")], some st)
  else if st.isDataRecptMode then
    if currentCommand = ascii "." then
      ((endOfData moment st extraCreditNonLocal).1,
        some (endOfData moment st extraCreditNonLocal).2)
    else ([], some (dataLine st currentCommand))
  else
    ([.reply (command st extraCreditNonLocal currentCommand).1],
      (command st extraCreditNonLocal currentCommand).2)

/-- A line that is looked at: it is not blank and not too long. -/
def Taken (line : Bytes) : Prop := trim line ≠ [] ∧ (trim line).length ≤ bufferLength

instance (line : Bytes) : Decidable (Taken line) := inferInstanceAs (Decidable (_ ∧ _))

section HandleLine

variable {x : Bool} {moment : Moment} {st : Session} {line : Bytes}

/-- A line that is not looked at changes nothing, and what is said of it does not
depend on the state. -/
theorem handleLine_of_not_taken (h : ¬Taken line) :
    handleLine x moment st line =
      (if trim line = [] then [] else [.reply (ascii "-ERR Command given too long\r\n")],
        some st) := by
  simp only [handleLine, List.isEmpty_iff]
  split_ifs with hnil hlong
  · rfl
  · rfl
  all_goals exact absurd ⟨hnil, not_lt.mp hlong⟩ h

theorem handleLine_dot (h : Taken line) (hmode : st.isDataRecptMode = true)
    (hdot : trim line = ascii ".") :
    handleLine x moment st line =
      ((endOfData moment st x).1, some (endOfData moment st x).2) := by
  simp only [handleLine, List.isEmpty_iff, if_neg h.1, if_neg (not_lt.mpr h.2), hmode, if_true,
    if_pos hdot]

theorem handleLine_data (h : Taken line) (hmode : st.isDataRecptMode = true)
    (hdot : trim line ≠ ascii ".") :
    handleLine x moment st line = ([], some (dataLine st (trim line))) := by
  simp only [handleLine, List.isEmpty_iff, if_neg h.1, if_neg (not_lt.mpr h.2), hmode, if_true,
    if_neg hdot]

theorem handleLine_command (h : Taken line) (hmode : st.isDataRecptMode = false) :
    handleLine x moment st line =
      ([.reply (command st x (trim line)).1], (command st x (trim line)).2) := by
  simp only [handleLine, List.isEmpty_iff, if_neg h.1, if_neg (not_lt.mpr h.2), hmode,
    Bool.false_eq_true, if_false]

end HandleLine

/-- The lines of a connection as they come, line `n` at its moment. -/
def step (extraCreditNonLocal : Bool) (moments : ℕ → Moment) (n : ℕ) :
    Session → Bytes → List Output × Option Session :=
  handleLine extraCreditNonLocal (moments n)

/-- What `recv` returned is added to the buffer as a C string. -/
def cString (received : Bytes) : Bytes := received.takeWhile (· ≠ 0)

/-- The welcome. -/
def welcome : Output :=
  .reply (ascii "220 localhost Simple Mail Transfer (SMTP) Server Ready\r\n")

/-- `handle_client`, on what its calls of `recv` return. -/
def handleClient (extraCreditNonLocal : Bool) (moments : ℕ → Moment) (received : List Bytes) :
    List Output :=
  welcome :: serve crlf (step extraCreditNonLocal moments) cString 0 [] .fresh received

/-! ### The calls on the store -/

/-- `sendDeliveryFailure`. -/
def sendDeliveryFailure (sender failedRecipient reason timestamp : Bytes) : Handler Unit := do
  let subject := ascii "Delivery Failed to " ++ failedRecipient
  let body := ascii "Your email could not be delivered to " ++ failedRecipient ++
    ascii ".\nReason: " ++ reason
  let encryptedMeta := emailId (ascii "mailer-daemon@localhost") sender subject timestamp
  let client ← getWorkerClient (inboxRow sender)
  let _ ← clientPut client (inboxRow sender) encryptedMeta body
  let curMeta ← clientGet client (inboxRow sender) metaColumn
  let _ ← clientPut client (inboxRow sender) metaColumn (appendedMeta curMeta encryptedMeta)
  return ()

/-- A message is handed to the store for a mailbox: the replies are not looked at. -/
def store (row id body : Bytes) : Handler Unit := do
  let client ← getWorkerClient row
  let _ ← clientPut client row id body
  appendToMetadata row id

/-- The calls on the store that an output stands for. -/
def Output.calls : Output → Handler Unit
  | .reply _ => return ()
  | .deliver sender recipient subject timestamp body => do
    let id := emailId sender recipient subject timestamp
    store (inboxRow recipient) id body
    if found "@localhost" sender then store (sentRow sender) id body
  | .relay _ _ _ _ => return ()
  | .bounce sender recipient reason timestamp =>
    sendDeliveryFailure sender recipient reason timestamp

end Smtp

end PennCloud
