import PennCloud.Frontend.Admin
import PennCloud.Frontend.Mail.Ownership
import PennCloud.Frontend.Storage.Methods

/-!
# The front end as a whole

One round of the loop of `client_connection` in `frontend/http_server.cc`, from the text of a
request to what is sent back: `PennCloud.ClientRequest.serve`. The branch that
`PennCloud.dispatch` selects reads the request, finds the user of the session where it asks for
one, and calls one of the services.

What the loop sends itself – the pages of the account service and of the sessions, the
refusals, the answer to the balancer and the files of the directory `web_pages` – is given as
the bytes that are sent (`PennCloud.httpResponse`). What the services for storage, mail and
administration answer is given as they give it, without the markup around it.

A response with a body has a header that says how long it is. Of a `HEAD` request the branches
that look for it (`PennCloud.isHead`) send the header alone; the test asks for `HEAD /`
anywhere in the text.
-/

namespace PennCloud

open Wire Calls Text

/-! ### Responses -/

/-- `buildHttpHeader`. -/
def buildHttpHeader (status contentType : String) (contentLength : ℕ) (extraHeaders : Bytes) :
    Bytes :=
  ascii "HTTP/1.1 " ++ ascii status ++ crlf ++
    ascii "Content-Type: " ++ ascii contentType ++ crlf ++
    ascii "Content-Length: " ++ decimal contentLength ++ crlf ++ extraHeaders ++
    ascii "Connection: keep-alive" ++ crlf ++ crlf

/-- `httpResponse`, for a page of HTML and without further headers, as it is always called. -/
def httpResponse (status : String) (body : Bytes) : Bytes :=
  buildHttpHeader status "text/html" body.length [] ++ body

/-- `isHead`: whether `HEAD /` is found in the request. -/
def isHead (request : Bytes) : Bool := found "HEAD /" request

/-- A page, or its header alone for a request that asks for the header. -/
def pageOrHeader (request : Bytes) (status : String) (html : Bytes) : Bytes :=
  if isHead request then buildHttpHeader status "text/html" html.length []
  else httpResponse status html

/-- What is sent to a client. -/
inductive Response where
  /-- These bytes. -/
  | sent (response : Bytes)
  /-- What a method of the storage service returns. -/
  | storage (reply : StorageReply)
  /-- What `handleEmailService` returns. -/
  | mail (response : MailResponse)
  /-- The outcome of an operation of the admin console. -/
  | admin (operation : AdminOperation)
  deriving DecidableEq

/-! ### Files -/

/-- `mime_types`. -/
def mimeTypes : List (Bytes × String) := [
  (ascii ".html", "text/html"), (ascii ".css", "text/css"),
  (ascii ".js", "application/javascript"), (ascii ".png", "image/png"),
  (ascii ".jpg", "image/jpeg"), (ascii ".jpeg", "image/jpeg"), (ascii ".gif", "image/gif"),
  (ascii ".txt", "text/plain"), (ascii ".json", "application/json"),
  (ascii ".ico", "image/x-icon")]

/-- `get_content_type`. -/
def getContentType (path : Bytes) : String :=
  if 46 ∈ path then
    (mimeTypes.lookup (46 :: afterLast 46 path)).getD "application/octet-stream"
  else "application/octet-stream"

/-- The words of the first line, as `getline` takes them off at the blanks. -/
def lineWords (request : Bytes) : List Bytes := getlines 32 (requestLine request)

/-- The file that a path asks for. -/
def webPage (path : Bytes) : Bytes :=
  ascii "../frontend/web_pages" ++ if path = ascii "/" then ascii "/index.html" else path

/-- The response when a file is not there, or empty. -/
def pageNotFound : Bytes :=
  ascii ("HTTP/1.1 404 Not Found\r\nContent-Type: text/plain\r\nContent-Length: 0\r\n" ++
    "Connection: keep-alive\r\n\r\n")

/-- The end of the header of a file. -/
def keepAliveEnd : Bytes := crlf ++ ascii "Connection: keep-alive" ++ crlf ++ crlf

/-- The branch of `GET`, where `file` are the contents of the files. The elements of `get_data`
are read without a look at how many there are. -/
def getPage (file : Bytes → Bytes) (request : Bytes) : Handler Bytes :=
  match lineWords request with
  | _ :: word :: _ :: _ =>
    let path := webPage (if 47 ∈ word then word.dropWhile (· ≠ 47) else ascii "/")
    let content := file path
    if content = [] then return pageNotFound
    else return ascii "HTTP/1.1 200 OK\r\ncontent-type: " ++ ascii (getContentType path) ++ crlf ++
      ascii "content-length: " ++ decimal content.length ++ keepAliveEnd ++ content
  | _ => .fail .undefined

/-- The branch of `HEAD`. -/
def headPage (file : Bytes → Bytes) (request : Bytes) : Handler Bytes :=
  match lineWords request with
  | _ :: word :: _ :: _ =>
    let path := webPage (if 47 ∈ word then word else ascii "/")
    let content := file path
    if content = [] then return pageNotFound
    else return ascii "HTTP/1.1 200 OK\r\nContent-Type: " ++ ascii (getContentType path) ++ crlf ++
      ascii "Content-Length: " ++ decimal content.length ++ keepAliveEnd
  | _ => .fail .undefined

/-! ### The account service and the sessions -/

/-- The body of a form that is taken without a look for the blank line. -/
def formBody (request : Bytes) : Handler Bytes :=
  match bodyBehind request with
  | .ok body => return body
  | .error e => .fail e

/-- The page that says there is no worker. -/
def serversDownPage : Bytes :=
  ascii "<html><body>Servers down, sorry for the inconvenience!</body></html>"

/-- The header that hands out a session. -/
def setCookie (sid : Bytes) : Bytes :=
  ascii "Set-Cookie: session_id=" ++ sid ++ ascii "; Path=/; HttpOnly\r\n"

/-- The page of a user who has logged in. -/
def dashboardPage (username : Bytes) : Bytes :=
  ascii ("\n\t\t\t\t\t\t<!DOCTYPE html><html><head><title>Dashboard</title></head>\n" ++
    "\t\t\t\t\t\t<body><h1>Welcome ") ++ username ++
  ascii ("</h1>\n\t\t\t\t\t\t<nav>\n\t\t\t\t\t\t  <a href=\"/email.html\">Email</a> |\n" ++
    "\t\t\t\t\t\t  <a href=\"/storage\">Storage</a>\n\t\t\t\t\t\t</nav>\n" ++
    "\t\t\t\t\t\t</body></html>\n\t\t\t\t\t\t")

/-- What a login with the session `sid` is answered. -/
def loginResponse (username sid : Bytes) : Bytes :=
  if sid = ascii "error" then httpResponse "503 Service Unavailable" serversDownPage
  else if username = ascii "admin" then
    buildHttpHeader "302 Found" "text/html" 0
      (setCookie sid ++ ascii "Location: /admin/dashboard\r\n")
  else
    buildHttpHeader "200 OK" "text/html" (dashboardPage username).length (setCookie sid) ++
      dashboardPage username

/-- The page that refuses a login. -/
def invalidCredentials : Bytes :=
  ascii ("<html><body><h1>Invalid credentials</h1>" ++
    "<a href='/login.html'>Try again</a></body></html>")

/-- The branch of `/credentials`, where `draws` are the values of `rand()`. -/
def serveCredentials (draws : List ℕ) (request : Bytes) : Handler Bytes := do
  let body ← formBody request
  let u := field body "username"
  let accepted ← authenticate u (field body "password")
  if accepted then
    let sid ← generateSessionCookie u draws
    return loginResponse u sid
  else return httpResponse "401 Unauthorized" invalidCredentials

/-- A page with the way to the login. -/
def pageWithLogin (heading : String) : Bytes :=
  ascii "<html><body><h1>" ++ ascii heading ++
    ascii "</h1><a href='/login.html'>Login</a></body></html>"

/-- The branch of `/signup`. -/
def serveSignup (request : Bytes) : Handler Bytes := do
  let body ← formBody request
  let created ← signup (field body "username") (field body "password")
  if created then return pageOrHeader request "200 OK" (pageWithLogin "Signed up!")
  else return httpResponse "409 Conflict" (pageWithLogin "User exists")

/-- What a change of the password is answered. The page of a failure of the servers has the text
of a wrong password, unless the header alone is sent. -/
def changePasswordResponse (request : Bytes) (response : ℕ) : Bytes :=
  if response = 0 then pageOrHeader request "200 OK" (pageWithLogin "Password changed")
  else if response = 1 then
    pageOrHeader request "404 Not Found" (ascii "<html><body>User not found</body></html>")
  else if response = 2 then
    pageOrHeader request "401 Unauthorized" (ascii "<html><body>Wrong old password</body></html>")
  else if isHead request then
    buildHttpHeader "503 Service Unavailable" "text/html" serversDownPage.length []
  else
    httpResponse "503 Service Unavailable" (ascii "<html><body>Wrong old password</body></html>")

/-- The branch of `/changepassword`. -/
def serveChangePassword (request : Bytes) : Handler Bytes := do
  let body ← formBody request
  let response ← changePassword (field body "username") (field body "old_password")
    (field body "new_password")
  return changePasswordResponse request response

/-- The branch of `/logout`. -/
def serveLogout (request : Bytes) : Handler Bytes := do
  let sessionId := extractSessionId request
  let username ← getUsernameFromSession sessionId
  let _ ← handleLogout sessionId username
  return pageOrHeader request "200 OK" (pageWithLogin "Logged out successfully!")

/-! ### The other services -/

/-- The page that asks for a login. -/
def unauthorizedPage : Bytes := ascii "<html><body>Unauthorized. Please login.</body></html>"

/-- A branch of the storage service: it is for the user of the session, if there is one. -/
def forUser (request refusal : Bytes) (method : Bytes → Handler StorageReply) :
    Handler Response := do
  let username ← getUsernameFromSession (extractSessionId request)
  if username.isEmpty then return .sent refusal
  else
    let reply ← method username
    return .storage reply

/-- The page for those who are not the admin. -/
def restrictedPage : Bytes :=
  ascii "<html><body>Restricted Access. Only Admin can view this page.</body></html>"

/-- A branch of the admin console. -/
def serveAdmin (received : List Bytes) (request : Bytes) : Handler Response := do
  let operation ← adminOperation received request
  match operation with
  | none => return .sent (httpResponse "401 Unauthorized" restrictedPage)
  | some op => return .admin op

/-- The answer to the balancer. -/
def healthResponse : Bytes := ascii "HTTP/1.1 200 OK\r\nContent-Length: 2\r\n\r\n"

/-- The answer to what is neither. -/
def methodNotAllowed : Bytes :=
  ascii "HTTP/1.1 405 Method Not Allowed\r\nConnection: keep-alive\r\n\r\n"

/-- A branch that sends bytes. -/
def sending (h : Handler Bytes) : Handler Response := do
  let response ← h
  return .sent response

/-- A branch of the web mail. -/
def answering (h : Handler MailResponse) : Handler Response := do
  let response ← h
  return .mail response

/-! ### A request -/

/-- A request as the loop receives it, and what it finds around it. -/
structure ClientRequest where
  /-- The text. -/
  text : Bytes
  /-- What is read from the client after it. -/
  later : List Bytes
  /-- The values of `rand()`. -/
  draws : List ℕ
  /-- The time, and the mail server. -/
  env : Surroundings
  /-- The contents of the files. -/
  file : Bytes → Bytes
  /-- The rounds that the loops and recursions without a bound are given. -/
  fuel : ℕ

namespace ClientRequest

variable (r : ClientRequest)

/-- The method of the storage service that a branch calls, on the user of the session. -/
def storageBranch : Branch → Option (Bytes → Handler StorageReply)
  | .list => some fun u => StorageService.list u r.text
  | .remove => some fun u => StorageService.remove u r.fuel r.text
  | .renameFolder => some fun u => StorageService.renameFolder u r.fuel r.later r.text
  | .renameFile => some fun u => StorageService.renameFile u r.later r.text
  | .moveFile => some fun u => StorageService.moveFile u r.fuel r.later r.text
  | .moveFolder => some fun u => StorageService.moveFolder u r.fuel r.later r.text
  | .createFolder => some fun u => StorageService.createFolder u r.later r.text
  | .upload => some fun u => StorageService.upload u r.fuel r.later r.text
  | .download => some fun u => StorageService.download u r.text
  | _ => none

/-- What these branches answer when there is no user. -/
def refusal : Branch → Bytes
  | .moveFile => httpResponse "401 Unauthorized" unauthorizedPage
  | .moveFolder => httpResponse "401 Unauthorized" unauthorizedPage
  | _ => pageOrHeader r.text "401 Unauthorized" unauthorizedPage

/-- The branches that call one of the three services. -/
def callService (branch : Branch) : Handler Response :=
  match r.storageBranch branch with
  | some method => forUser r.text (r.refusal branch) method
  | none =>
    match mailBranch r.env r.text branch with
    | some h => answering h
    | none => serveAdmin r.later r.text

/-- The branch that was selected. -/
def serveBranch : Branch → Handler Response
  | .credentials => sending (serveCredentials r.draws r.text)
  | .signup => sending (serveSignup r.text)
  | .changePassword => sending (serveChangePassword r.text)
  | .logout => sending (serveLogout r.text)
  | .health => return .sent healthResponse
  | .getPage => sending (getPage r.file r.text)
  | .headPage => sending (headPage r.file r.text)
  | .methodNotAllowed => return .sent methodNotAllowed
  | branch => r.callService branch

/-- **One round of the loop**: what is sent for a request, or nothing when the connection is
closed instead. -/
def serve : Handler (Option Response) :=
  match clientConnection r.text with
  | none => return none
  | some branch => do
    let response ← r.serveBranch branch
    return some response

end ClientRequest

end PennCloud
