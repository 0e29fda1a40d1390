import PennCloud.Frontend.Authority
import PennCloud.Frontend.Storage.Refinement

/-!
# What the front end is for

Accounts with passwords, sessions, and a tree of files and folders for every user: that is a
`PennCloud.Cloud`, and `PennCloud.Cloud.Does` says what a request does to it and what it is
answered. Requests are given by their texts. What a text asks for is what the front end reads
from it: the branch it is sent to, the fields of its form, its cookie and, where it is for the
storage, the request of `PennCloud.ClientRequest.storageRequest`.

The front end does this when the requests are served one after the other
(`PennCloud.server_refines_cloud` in `PennCloud.Frontend.CloudRuns`), as long as they keep to
what `PennCloud.Visit.Fitting` says: no cookie `active-users`, names and passwords that cannot
be taken for errors or for mailboxes, and storage requests that find what they need.
-/

namespace PennCloud

open Wire Calls Text

/-! ### What a request for the storage asks for -/

/-- What a method has found in a request. -/
def foundIn {α : Type} : Except Abort (Parsed α) → Option α
  | .ok (.found params) => some params
  | _ => none

/-- **The storage request** that a text asks for, if its branch makes one of it. -/
def ClientRequest.storageRequest (r : ClientRequest) : Branch → Option StorageRequest
  | .list => (foundIn ((storageParams r.text).map .found)).map fun params =>
    .list (textParam params "folder")
  | .remove => (foundIn (removeParams r.text)).map .delete
  | .upload => (foundIn (uploadParams r.later r.text)).map fun u =>
    .upload u.folder u.filename u.fileData
  | .createFolder => (foundIn (createFolderParams r.later r.text)).map fun p =>
    .createFolder p.1 p.2
  | .renameFile =>
    if foundAtStart "POST /rename" r.text then
      (foundIn ((storageForm r.later r.text).map .found)).map fun fields =>
        .renameFile (textParam fields "folder") (textParam fields "oldfilename")
          (textParam fields "newfilename")
    else none
  | .renameFolder =>
    if foundAtStart "POST /renameFolder" r.text then
      (foundIn ((storageForm r.later r.text).map .found)).map fun fields =>
        .renameFolder (textParam fields "folder") (textParam fields "newname")
    else none
  | .moveFile =>
    if foundAtStart "POST /moveFile" r.text then
      (foundIn ((storageForm r.later r.text).map .found)).map fun fields =>
        .moveFile (textParam fields "sourceFolder") (textParam fields "filename")
          (textParam fields "targetFolder")
    else none
  | .moveFolder =>
    if foundAtStart "POST /moveFolder" r.text then
      (foundIn ((storageForm r.later r.text).map .found)).map fun fields =>
        .moveFolder (textParam fields "folder") (textParam fields "targetFolder")
    else none
  | _ => none

section Methods

variable {b : Bytes} {α : Type} {parsed : Except Abort (Parsed α)} {f : α → Handler StorageReply}

theorem served_of_foundIn {a : α} (h : foundIn parsed = some a) : served b parsed f = f a := by
  rcases parsed with e | page | params
  · cases h
  · cases h
  · obtain rfl := Option.some.inj h
    rfl

theorem reads_onWorkerFor {p : Handler StorageReply} (hp : p.Uses Call.Reads) :
    (onWorkerFor b p).Uses Call.Reads :=
  Prog.Uses.ask_bind trivial fun _ => Prog.Uses.ite (fun _ => trivial) fun _ => hp

/-- A method that does not find its parameters only asks for the worker. -/
theorem reads_served (h : ∀ a, foundIn parsed = some a → (f a).Uses Call.Reads) :
    (served b parsed f).Uses Call.Reads := by
  rcases parsed with e | page | params
  · exact reads_onWorkerFor trivial
  · exact reads_onWorkerFor trivial
  · exact h params rfl

theorem reads_webStorageDownload (folder filename : Bytes) :
    (webStorageDownload b folder filename).Uses Call.Reads := by
  have hcontents : ∀ files, (chunkContents b files).Uses Call.Reads := by
    intro files
    induction files with
    | nil => exact trivial
    | cons file files ih => exact Prog.Uses.ask_bind trivial fun _ => ih.bind fun _ => trivial
  refine reads_onWorkerFor (Prog.Uses.ask_bind trivial fun _ => (hcontents _).bind fun _ => ?_)
  split_ifs with hempty <;> exact trivial

theorem reads_moveTargets (folder : Bytes) : (moveTargets b folder).Uses Call.Reads := by
  have hsub : ∀ entries, (listSubfolders b entries).Uses Call.Reads := by
    intro entries
    induction entries with
    | nil => exact trivial
    | cons e es ih =>
      refine Prog.Uses.ask_bind trivial fun _ => ih.bind fun _ => ?_
      split_ifs with hmarker <;> exact trivial
  refine Prog.Uses.ask_bind trivial fun text => ?_
  dsimp only
  split_ifs with hnone hempty hempty
  · exact trivial
  · exact hsub _
  · exact trivial
  · exact hsub _

end Methods

namespace ClientRequest

variable {r : ClientRequest} {branch : Branch}

/-- **A branch that has found a request for the storage handles it.** -/
theorem storageBranch_of_request {q : StorageRequest} (h : r.storageRequest branch = some q) :
    ∃ method, r.storageBranch branch = some method ∧
      ∀ u, method u = answered (q.handler (storageRow u) r.fuel) := by
  cases branch with
  | list =>
    obtain ⟨params, hparams, rfl⟩ := Option.map_eq_some_iff.mp h
    exact ⟨_, rfl, fun u => served_of_foundIn hparams⟩
  | remove =>
    obtain ⟨path, hpath, rfl⟩ := Option.map_eq_some_iff.mp h
    exact ⟨_, rfl, fun u => served_of_foundIn hpath⟩
  | upload =>
    obtain ⟨u, hu, rfl⟩ := Option.map_eq_some_iff.mp h
    exact ⟨_, rfl, fun u => served_of_foundIn hu⟩
  | createFolder =>
    obtain ⟨p, hp, rfl⟩ := Option.map_eq_some_iff.mp h
    exact ⟨_, rfl, fun u => served_of_foundIn hp⟩
  | renameFile =>
    rw [storageRequest] at h
    split_ifs at h with hpost
    obtain ⟨fields, hfields, rfl⟩ := Option.map_eq_some_iff.mp h
    exact ⟨_, rfl, fun u => (if_pos hpost).trans (served_of_foundIn hfields)⟩
  | renameFolder =>
    rw [storageRequest] at h
    split_ifs at h with hpost
    obtain ⟨fields, hfields, rfl⟩ := Option.map_eq_some_iff.mp h
    exact ⟨_, rfl, fun u => (if_pos hpost).trans (served_of_foundIn hfields)⟩
  | moveFile =>
    rw [storageRequest] at h
    split_ifs at h with hpost
    obtain ⟨fields, hfields, rfl⟩ := Option.map_eq_some_iff.mp h
    exact ⟨_, rfl, fun u => (if_pos hpost).trans (served_of_foundIn hfields)⟩
  | moveFolder =>
    rw [storageRequest] at h
    split_ifs at h with hpost
    obtain ⟨fields, hfields, rfl⟩ := Option.map_eq_some_iff.mp h
    exact ⟨_, rfl, fun u => (if_pos hpost).trans (served_of_foundIn hfields)⟩
  | _ => cases h

/-- **A branch that has found none reads only**: it refuses, shows a form or a file, or fails. -/
theorem reads_storageBranch {method : Bytes → Handler StorageReply}
    (hm : r.storageBranch branch = some method) (h : r.storageRequest branch = none) (u : Bytes) :
    (method u).Uses Call.Reads := by
  have hnone : ∀ {α β : Type} {parsed : Except Abort (Parsed α)} {g : α → β},
      (foundIn parsed).map g = none → ∀ a, foundIn parsed ≠ some a := by
    intro α β parsed g hmap a ha
    rw [ha] at hmap
    cases hmap
  have hform : ∀ reply : StorageReply, (onWorkerFor (storageRow u) (pure reply)).Uses Call.Reads :=
    fun reply => reads_onWorkerFor trivial
  cases branch with
  | list | remove | upload | createFolder =>
    obtain rfl := Option.some.inj hm
    exact reads_served fun a ha => absurd ha (hnone h a)
  | renameFile | renameFolder =>
    obtain rfl := Option.some.inj hm
    rw [storageRequest] at h
    refine Prog.Uses.ite (fun hpost => ?_) fun _ => reads_served fun _ _ => hform _
    rw [if_pos hpost] at h
    exact reads_served fun a ha => absurd ha (hnone h a)
  | moveFile | moveFolder =>
    obtain rfl := Option.some.inj hm
    rw [storageRequest] at h
    refine Prog.Uses.ite (fun hpost => ?_) fun _ => reads_served fun _ _ => ?_
    · rw [if_pos hpost] at h
      exact reads_served fun a ha => absurd ha (hnone h a)
    · exact reads_onWorkerFor ((reads_moveTargets _).bind fun _ => trivial)
  | download =>
    obtain rfl := Option.some.inj hm
    exact reads_served fun _ _ => reads_webStorageDownload _ _
  | _ => cases hm

end ClientRequest

/-! ### The machine -/

/-- What the front end keeps for its users. -/
structure Cloud where
  /-- The passwords of those who have an account. -/
  passwords : Bytes → Option Bytes
  /-- The user of each session. -/
  sessions : Bytes → Option Bytes
  /-- The files of each user. -/
  files : Bytes → FileTree ItemName Bytes

namespace Cloud

/-- Before anybody has signed up. -/
def empty : Cloud := ⟨fun _ => none, fun _ => none, fun _ => .empty⟩

/-- The user whose session the cookie of a request is. -/
def user (c : Cloud) (r : ClientRequest) : Option Bytes := c.sessions r.cookie

/-- A session is handed out to a user, or ends. -/
def setSession (c : Cloud) (sid : Bytes) (u : Option Bytes) : Cloud :=
  { c with sessions := Function.update c.sessions sid u }

/-- A user has a password, or another one. -/
def setPassword (c : Cloud) (u p : Bytes) : Cloud :=
  { c with passwords := Function.update c.passwords u (some p) }

/-- The files of a user are others. -/
def setFiles (c : Cloud) (u : Bytes) (t : FileTree ItemName Bytes) : Cloud :=
  { c with files := Function.update c.files u t }

/-- The branches that are for the admin only. -/
def guarded : List Branch := [.adminDashboard, .adminToggle, .frontendToggle]

/-- The branches of the admin console. -/
def console : List Branch := guarded ++ unguarded

/-- The file that a request to download one names. -/
def Downloads (r : ClientRequest) (p : List ItemName) (n : ItemName) : Prop :=
  ∃ params, storageParams r.text = .ok params ∧ textParam params "folder" = pathOf p ∧
    (param params (ascii "filename")).getD (ascii "myfile") = n.1

/-- **What a request does**, and what it is answered. -/
inductive Does (c : Cloud) (r : ClientRequest) : Option Response → Cloud → Prop
  /-- Without `keep-alive` the connection is closed. -/
  | closed (h : clientConnection r.text = none) : Does c r none c
  /-- Who names the password is logged in, with a session that nobody has. -/
  | loggedIn {body : Bytes} {n : ℕ} (h : r.Posts .credentials body)
    (hp : c.passwords (field body "username") = some (field body "password"))
    (hn : n ∈ r.draws) (hfree : c.sessions (decimal n) = none) :
    Does c r (some (.sent (loginResponse (field body "username") (decimal n))))
      (c.setSession (decimal n) (some (field body "username")))
  /-- Others are not. -/
  | loginRefused {body : Bytes} (h : r.Posts .credentials body)
    (hp : c.passwords (field body "username") ≠ some (field body "password")) :
    Does c r (some (.sent (httpResponse "401 Unauthorized" invalidCredentials))) c
  /-- A new user gets an account, -/
  | signedUp {body : Bytes} (h : r.Posts .signup body)
    (hp : c.passwords (field body "username") = none) :
    Does c r (some (.sent (pageOrHeader r.text "200 OK" (pageWithLogin "Signed up!"))))
      (c.setPassword (field body "username") (field body "password"))
  /-- and keeps it. -/
  | signupRefused {body : Bytes} (h : r.Posts .signup body)
    (hp : c.passwords (field body "username") ≠ none) :
    Does c r (some (.sent (httpResponse "409 Conflict" (pageWithLogin "User exists")))) c
  /-- Who names the password may change it. -/
  | passwordChanged {body : Bytes} (h : r.Posts .changePassword body)
    (hp : c.passwords (field body "username") = some (field body "old_password")) :
    Does c r (some (.sent (changePasswordResponse r.text 0)))
      (c.setPassword (field body "username") (field body "new_password"))
  | noSuchUser {body : Bytes} (h : r.Posts .changePassword body)
    (hp : c.passwords (field body "username") = none) :
    Does c r (some (.sent (changePasswordResponse r.text 1))) c
  | wrongPassword {body p : Bytes} (h : r.Posts .changePassword body)
    (hp : c.passwords (field body "username") = some p) (hne : p ≠ field body "old_password") :
    Does c r (some (.sent (changePasswordResponse r.text 2))) c
  /-- A logout ends the session it names. -/
  | loggedOut (h : clientConnection r.text = some .logout) :
    Does c r
      (some (.sent (pageOrHeader r.text "200 OK" (pageWithLogin "Logged out successfully!"))))
      (c.setSession r.cookie none)
  /-- The storage is for those who are logged in. -/
  | storageRefused {branch : Branch} {method : Bytes → Handler StorageReply}
    (h : clientConnection r.text = some branch) (hm : r.storageBranch branch = some method)
    (hu : c.user r = none) : Does c r (some (.sent (r.refusal branch))) c
  /-- It does to the files of the user what the request asks for. -/
  | stored {branch : Branch} {q : StorageRequest} {u : Bytes} {a : Answer}
    {t : FileTree ItemName Bytes} (h : clientConnection r.text = some branch)
    (hq : r.storageRequest branch = some q) (hu : c.user r = some u)
    (hd : q.Does (c.files u) a t) : Does c r (some (.storage (.answer a))) (c.setFiles u t)
  /-- A download is the file of the user, if there is one of the name, -/
  | downloaded {u : Bytes} {reply : StorageReply} (h : clientConnection r.text = some .download)
    (hu : c.user r = some u) (hfile : ∀ p n d, Downloads r p n →
      (c.files u).item (p ++ [n]) = some (.file d) → reply = .download n.1 d) :
    Does c r (some (.storage reply)) c
  /-- and the forms do nothing. -/
  | form {branch : Branch} {method : Bytes → Handler StorageReply} {u : Bytes}
    {reply : StorageReply} (h : clientConnection r.text = some branch)
    (hm : r.storageBranch branch = some method) (hq : r.storageRequest branch = none)
    (hne : branch ≠ .download) (hu : c.user r = some u) : Does c r (some (.storage reply)) c
  /-- The mail is for those who are logged in. -/
  | mailRefused {branch : Branch} {p : Handler MailResponse}
    (h : clientConnection r.text = some branch) (hm : mailBranch r.env r.text branch = some p)
    (hu : c.user r = none) : Does c r (some (.mail .unauthorized)) c
  | mail {branch : Branch} {p : Handler MailResponse} {u : Bytes} {page : MailPage}
    (h : clientConnection r.text = some branch) (hm : mailBranch r.env r.text branch = some p)
    (hu : c.user r = some u) : Does c r (some (.mail (.page page))) c
  /-- Three branches are for the admin. -/
  | adminRefused {branch : Branch} (h : clientConnection r.text = some branch)
    (hb : branch ∈ guarded) (hu : c.user r ≠ some (ascii "admin")) :
    Does c r (some (.sent (httpResponse "401 Unauthorized" restrictedPage))) c
  | admin {branch : Branch} {op : AdminOperation} (h : clientConnection r.text = some branch)
    (hb : branch ∈ console) (hu : branch ∈ guarded → c.user r = some (ascii "admin")) :
    Does c r (some (.admin op)) c
  /-- The pages are the same for everybody. -/
  | page {branch : Branch} {response : Response} (h : clientConnection r.text = some branch)
    (hp : r.serveBranch branch = return response) : Does c r (some response) c

end Cloud

end PennCloud
