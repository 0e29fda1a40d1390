import PennCloud.Lib.Text
import Mathlib.Data.Bool.AllAny

/-!
# How a request finds its service

The loop of `client_connection` in `frontend/http_server.cc`. A request is the
text of one `recv`, up to the first NUL: the method, the path, the headers and
the body in one string. The loop first looks for the value of the `Connection`
header and closes the connection unless it is `keep-alive`; then it goes down a
chain of tests, `PennCloud.routes`, and the first one that succeeds selects the
service. Most of them ask whether a word occurs *anywhere* in the text, a few
whether it is found at position 0, and so does the search for `Connection:`.

What the service should depend on is the request line. Since the tests look at
the whole text, it hardly ever does: `PennCloud.HttpRequest.routed_by_line_iff`
says for which request lines no other header and no body can change the branch.
They are those in which the *line* says both what the first test needs and what
the `Connection` header should have said.

* `PennCloud.clientConnection` – the branch the loop takes on a text;
* `PennCloud.HttpRequest` – a request as its parts, with the text they make;
* `PennCloud.extractConnectionHeader_line` – a line that contains `Connection:`
  decides for the header.
-/

namespace PennCloud

open Wire Text

/-! ### The tests -/

/-- The branches of `client_connection`. -/
inductive Branch where
  | credentials | signup | changePassword | logout
  | adminDashboard | adminWorkerStatus | adminTabletPage | adminWorkerPage | adminToggle
  | list | remove | renameFolder | renameFile | moveFile | moveFolder | createFolder
  | upload | download
  | email | deleteMail | send | compose | inbox | reply | forward
  | health | frontendToggle | getPage | headPage | methodNotAllowed
  deriving DecidableEq

/-- `request.find(word) != npos`. -/
def found (word : String) (request : Bytes) : Bool := (cut (ascii word) request).isSome

/-- `request.find(word) == 0`. -/
def foundAtStart (word : String) (request : Bytes) : Bool := (ascii word).isPrefixOf request

/-- The chain of tests, from the first to the last. The branch of
`/admin/backend?worker=` asks for a tablet inside, which is a test of its own
here. -/
def routes : List ((Bytes → Bool) × Branch) := [
  (fun r => found "POST /credentials" r || found "HEAD /credentials" r, .credentials),
  (fun r => found "POST /signup" r || found "HEAD /signup" r, .signup),
  (fun r => found "POST /changepassword" r || found "HEAD /changepassword" r, .changePassword),
  (fun r => found "GET /logout" r || found "HEAD /logout" r, .logout),
  (fun r => found "GET /admin/dashboard" r, .adminDashboard),
  (fun r => found "GET /admin/worker-status" r, .adminWorkerStatus),
  (fun r => found "GET /admin/backend?worker=" r && found "&tablet=" r, .adminTabletPage),
  (fun r => found "GET /admin/backend?worker=" r, .adminWorkerPage),
  (fun r => found "POST /admin/toggle" r, .adminToggle),
  (fun r => found "GET /storage" r || found "GET /list" r, .list),
  (fun r => foundAtStart "GET /deleteStorage" r || foundAtStart "HEAD /deleteStorage" r, .remove),
  (fun r => foundAtStart "GET /renameFolder" r || foundAtStart "POST /renameFolder" r ||
    foundAtStart "HEAD /renameFolder" r, .renameFolder),
  (fun r => foundAtStart "GET /rename" r || foundAtStart "POST /rename" r ||
    foundAtStart "HEAD /rename" r, .renameFile),
  (fun r => foundAtStart "POST /moveFile" r || foundAtStart "GET /moveFile" r, .moveFile),
  (fun r => foundAtStart "POST /moveFolder" r || foundAtStart "GET /moveFolder" r, .moveFolder),
  (fun r => found "POST /createSubFolder" r || found "HEAD /createSubFolder" r, .createFolder),
  (fun r => found "POST /upload" r || found "HEAD /upload" r, .upload),
  (fun r => found "GET /download" r || found "HEAD /download" r, .download),
  (fun r => found "GET /email" r && !found "GET /email.html" r, .email),
  (fun r => found "/delete" r, .deleteMail),
  (fun r => found "POST /send" r, .send),
  (fun r => found "GET /compose" r, .compose),
  (fun r => found "/inbox" r || found "/email.html" r, .inbox),
  (fun r => found "GET /reply" r, .reply),
  (fun r => found "GET /forward" r, .forward),
  (fun r => found "HEAD /health" r, .health),
  (fun r => found "POST /admin/frontend-toggle" r, .frontendToggle),
  (fun r => found "GET" r, .getPage),
  (fun r => found "HEAD" r, .headPage)]

/-- The branch a request is sent to. -/
def dispatch (request : Bytes) : Branch :=
  ((routes.find? fun route => route.1 request).map Prod.snd).getD .methodNotAllowed

/-- The end of a line. -/
def crlf : Bytes := [13, 10]

/-- The value of the `Connection` header: what follows the first `Connection:` of
the text, without the blanks before it and up to the end of the line. -/
def extractConnectionHeader (request : Bytes) : Bytes :=
  match cut (ascii "Connection:") request with
  | none => ascii "close"
  | some (_, rest) =>
    let start := rest.dropWhile (· == 32)
    -- `find_first_not_of` finds nothing in an empty rest, and neither does `find` then
    if start = [] then ascii "close"
    else match cut crlf start with
      | none => ascii "close"
      | some (value, _) => value

/-- One round of the loop: the branch taken, or nothing when the connection is
closed. -/
def clientConnection (request : Bytes) : Option Branch :=
  if extractConnectionHeader request ≠ ascii "keep-alive" then none else some (dispatch request)

theorem found_iff {word : String} {request : Bytes} :
    found word request = true ↔ ascii word <:+: request := isSome_cut

/-- The first test: the words that send a request to the login. -/
def AsksCredentials (text : Bytes) : Prop :=
  ascii "POST /credentials" <:+: text ∨ ascii "HEAD /credentials" <:+: text

theorem AsksCredentials.mono {s t : Bytes} (h : AsksCredentials s) (hst : s <:+: t) :
    AsksCredentials t :=
  h.imp (fun h => h.trans hst) (fun h => h.trans hst)

/-- A word of the first test does not go across the end of a line. -/
theorem AsksCredentials.of_append_crlf {s t : Bytes} (h : AsksCredentials (s ++ (crlf ++ t))) :
    AsksCredentials s ∨ AsksCredentials t := by
  have hword : ∀ word : Bytes, 13 ∉ word → 10 ∉ word → word <:+: s ++ (crlf ++ t) →
      word ≠ [] → word <:+: s ∨ word <:+: t := by
    rintro (_ | ⟨x, w⟩) hcr hlf hin hne
    · exact absurd rfl hne
    · refine (infix_append_cons hcr hin).imp_right fun hin => ?_
      refine infix_of_append (s := crlf) (fun hmem => ?_) hin
      rcases List.mem_cons.mp hmem with rfl | hmem
      · exact hcr List.mem_cons_self
      · exact hlf (List.mem_singleton.mp hmem ▸ List.mem_cons_self)
  rcases h with h | h
  · exact (hword _ (by decide) (by decide) h (by decide)).imp Or.inl Or.inl
  · exact (hword _ (by decide) (by decide) h (by decide)).imp Or.inr Or.inr

/-- A word of the first test begins with `P` or `H`. -/
theorem AsksCredentials.of_append {s t : Bytes} (hP : 80 ∉ s) (hH : 72 ∉ s)
    (h : AsksCredentials (s ++ t)) : AsksCredentials t :=
  h.imp (infix_of_append hP) (infix_of_append hH)

/-- The first branch is taken exactly when the first test succeeds. -/
theorem dispatch_eq_credentials_iff {request : Bytes} :
    dispatch request = .credentials ↔ AsksCredentials request := by
  have hlater : Branch.credentials ∉ routes.tail.map Prod.snd := by decide
  have hroutes : routes = ((fun r => found "POST /credentials" r || found "HEAD /credentials" r),
      Branch.credentials) :: routes.tail := rfl
  rw [AsksCredentials, ← found_iff, ← found_iff, ← Bool.or_eq_true, dispatch, hroutes,
    List.find?_cons]
  rcases h : found "POST /credentials" request || found "HEAD /credentials" request
  · dsimp only
    rw [h]
    rcases hf : routes.tail.find? fun route => route.1 request with _ | route
    · simp [hf]
    · have hmem := List.mem_map_of_mem (f := Prod.snd) (List.mem_of_find?_eq_some hf)
      have hne : route.2 ≠ .credentials := fun heq => hlater (heq ▸ hmem)
      simp [hf, hne]
  · dsimp only
    rw [h]
    simp

/-! ### A line that contains `Connection:` -/

/-- What the line itself says after a `Connection:` in it. -/
def lineConnection (line : Bytes) : Option Bytes :=
  (cut (ascii "Connection:") line).map fun r => r.2.dropWhile (· == 32)

theorem dropWhile_append_crlf (s t : Bytes) :
    (s ++ (crlf ++ t)).dropWhile (· == 32) = s.dropWhile (· == 32) ++ (crlf ++ t) := by
  induction s with
  | nil => rfl
  | cons x s ih =>
    by_cases hx : x = 32
    · simp only [List.cons_append, List.dropWhile_cons, hx, beq_self_eq_true, if_true, ih]
    · simp [hx]

/-- A text without the end of a line is a line as soon as one follows. -/
theorem cut_append_crlf {s : Bytes} (h : cut crlf s = none) (t : Bytes) :
    cut crlf (s ++ (crlf ++ t)) = some (s, t) := by
  induction s with
  | nil => exact cut_at_start (List.prefix_append crlf t)
  | cons x s ih =>
    have hs : ¬ crlf <+: x :: s := by
      intro hw
      rw [cut_at_start hw] at h
      exact absurd h (by simp)
    have hpre : ¬ crlf <+: x :: (s ++ (crlf ++ t)) := by
      intro hw
      obtain ⟨rfl, hlf⟩ := List.cons_prefix_cons.mp hw
      rcases s with _ | ⟨y, s⟩
      · exact absurd (List.cons_prefix_cons.mp hlf).1 (by decide)
      · obtain ⟨rfl, -⟩ := List.cons_prefix_cons.mp hlf
        exact hs (List.prefix_append crlf s)
    rw [cut_cons hs, Option.map_eq_none_iff] at h
    rw [List.cons_append, cut_cons hpre, ih h]
    rfl

theorem cut_crlf {s : Bytes} (h : 13 ∉ s) (t : Bytes) :
    cut crlf (s ++ (crlf ++ t)) = some (s, t) := by
  have hs : ¬ crlf <:+: s := fun hin => h (hin.subset (by decide))
  refine cut_append_crlf (Option.not_isSome_iff_eq_none.mp fun hsome => ?_) t
  exact hs (isSome_cut.mp hsome)

/-- The value of a text whose part before the end of a line is known: what
follows the `Connection:` there. -/
theorem extractConnectionHeader_of_cut {request p q t : Bytes}
    (h : cut (ascii "Connection:") request = some (p, q ++ (crlf ++ t))) (hq : 13 ∉ q) :
    extractConnectionHeader request = q.dropWhile (· == 32) := by
  have hq' : 13 ∉ q.dropWhile (· == 32) := fun hmem => hq (List.dropWhile_subset _ hmem)
  have hne : q.dropWhile (· == 32) ++ (crlf ++ t) ≠ [] := by simp [crlf]
  simp only [extractConnectionHeader, h, dropWhile_append_crlf, if_neg hne, cut_crlf hq']

/-- **A line that contains `Connection:` decides for the header**, whatever
follows. -/
theorem extractConnectionHeader_line {line value : Bytes} (hline : 13 ∉ line)
    (h : lineConnection line = some value) (t : Bytes) :
    extractConnectionHeader (line ++ (crlf ++ t)) = value := by
  obtain ⟨⟨p, q⟩, hcut, rfl⟩ := Option.map_eq_some_iff.mp h
  have hq : 13 ∉ q := fun hmem => hline (by
    rw [eq_append_of_cut hcut]
    exact List.mem_append_right _ hmem)
  refine extractConnectionHeader_of_cut (p := p) (t := t) ?_ hq
  rw [cut_append hcut]

/-- A line without it leaves the header to the first `Connection:` behind it. -/
theorem cut_connection_of_line {line : Bytes} (h : lineConnection line = none) (t : Bytes) :
    cut (ascii "Connection:") (line ++ (crlf ++ t)) =
      (cut (ascii "Connection:") (crlf ++ t)).map fun r => (line ++ r.1, r.2) := by
  have hline : ¬ ascii "Connection:" <:+: line := by
    rw [← isSome_cut, Option.map_eq_none_iff.mp h]
    decide
  exact cut_append_cons hline (by decide) (10 :: t)

/-! ### Requests -/

/-- A character of a line: no NUL and no part of the end of a line. -/
def OnLine (b : UInt8) : Prop := b ≠ 0 ∧ b ≠ 10 ∧ b ≠ 13

instance : DecidablePred OnLine := fun _ => inferInstanceAs (Decidable (_ ∧ _))

/-- A header. -/
structure Header where
  /-- Its name. -/
  name : Bytes
  /-- Its value. -/
  value : Bytes
  /-- The name is on one line and ends before the colon. -/
  name_ok : ∀ b ∈ name, OnLine b ∧ b ≠ 58
  /-- The value is on one line. -/
  value_ok : ∀ b ∈ value, OnLine b

/-- The line of a header. -/
def Header.text (h : Header) : Bytes := h.name ++ (ascii ": " ++ (h.value ++ crlf))

/-- The lines of the headers. -/
def headersText (headers : List Header) : Bytes := headers.flatMap Header.text

/-- `buffer_size` of `client_connection`. -/
def bufferSize : ℕ := 2000

/-- `string request(buffer)`: what one `recv` returned, up to the first NUL. -/
def textOf (piece : Bytes) : Bytes := piece.takeWhile (· != 0)

/-- The results of `recv` that a request may arrive in. -/
structure Arrives (request : Bytes) (pieces : List Bytes) : Prop where
  /-- Together they are the request. -/
  flatten : pieces.flatten = request
  /-- None of them is empty. -/
  ne_nil : ∀ piece ∈ pieces, piece ≠ []
  /-- They fit into the buffer, with its final NUL. -/
  length_le : ∀ piece ∈ pieces, piece.length ≤ bufferSize - 1

/-- The texts that the loop takes for requests. After one that does not keep the
connection there are no more. -/
def requestsRead : List Bytes → List Bytes
  | [] => []
  | piece :: pieces =>
    if piece = [] then []
    else textOf piece ::
      if clientConnection (textOf piece) = none then [] else requestsRead pieces

/-- The text of a request. -/
def requestText (line : Bytes) (headers : List Header) (body : Bytes) : Bytes :=
  line ++ (crlf ++ (headersText headers ++ (crlf ++ body)))

/-- A request that fits into the buffer: the first line with method, path and
query, the headers and the body. -/
structure HttpRequest where
  /-- The first line. -/
  line : Bytes
  /-- The headers, in order. -/
  headers : List Header
  /-- The body: any bytes. -/
  body : Bytes
  /-- The first line is a line. -/
  line_ok : ∀ b ∈ line, OnLine b
  /-- One `recv` takes the whole request. -/
  fits : (requestText line headers body).length ≤ bufferSize - 1

/-- Is this the `Connection` header? Names are not case-sensitive. -/
def Header.isConnection (h : Header) : Bool :=
  h.name.map (fun b => if 65 ≤ b ∧ b ≤ 90 then b + 32 else b) == ascii "connection"

namespace HttpRequest

variable (r : HttpRequest)

/-- The headers that say what becomes of the connection. -/
def connectionHeaders : List Header := r.headers.filter Header.isConnection

/-- The value of the `Connection` header, one for each when there are several. -/
def connection : List Bytes := r.connectionHeaders.map Header.value

/-- The text that `string request(buffer)` makes of the request: it stops at the
first NUL. -/
def received : Bytes :=
  (requestText r.line r.headers r.body).takeWhile (· != 0)

/-- The branch that the request selects. -/
def branch : Option Branch := clientConnection r.received

/-- **Routing by the request line**: every request with the same first line and
the same `Connection` value selects the same branch. -/
def RoutedByLine : Prop :=
  ∀ r' : HttpRequest, r'.line = r.line → r'.connection = r.connection → r'.branch = r.branch

/-- The first line contains `Connection:` – and what it says there is not
`keep-alive`, or the line or the `Connection` value asks for the first branch. -/
def LineDecides : Prop :=
  ∃ value, lineConnection r.line = some value ∧
    (value = ascii "keep-alive" →
      AsksCredentials r.line ∨ ∃ v ∈ r.connection, AsksCredentials v)

end HttpRequest

/-! ### The text that is received -/

theorem takeWhile_append_of_onLine {s : Bytes} (h : ∀ b ∈ s, b ≠ 0) (t : Bytes) :
    (s ++ t).takeWhile (· != 0) = s ++ t.takeWhile (· != 0) :=
  List.takeWhile_append_of_pos fun b hb => by simpa using h b hb

/-- A piece without a NUL is a text. -/
theorem textOf_of_notMem {s : Bytes} (h : 0 ∉ s) : textOf s = s := by
  have htext := takeWhile_append_of_onLine (fun b hb heq => h (heq ▸ hb)) ([] : Bytes)
  rwa [List.append_nil, List.takeWhile_nil, List.append_nil] at htext

theorem Header.ne_zero_of_mem_text {h : Header} {b : UInt8} (hb : b ∈ h.text) : b ≠ 0 := by
  simp only [Header.text, List.mem_append] at hb
  rcases hb with hb | hb | hb | hb
  · exact (h.name_ok b hb).1.1
  · rintro rfl
    exact absurd hb (by decide)
  · exact (h.value_ok b hb).1
  · rintro rfl
    exact absurd hb (by decide)

theorem ne_zero_of_mem_headersText {headers : List Header} {b : UInt8}
    (hb : b ∈ headersText headers) : b ≠ 0 := by
  obtain ⟨h, -, hh⟩ := List.mem_flatMap.mp hb
  exact Header.ne_zero_of_mem_text hh

theorem ne_zero_of_mem_crlf {b : UInt8} (hb : b ∈ crlf) : b ≠ 0 := by
  rintro rfl
  exact absurd hb (by decide)

/-- The name of a `Connection` header holds no letter a word of the first test
begins with. -/
theorem Header.notMem_name {h : Header} (hconn : h.isConnection = true) :
    80 ∉ h.name ∧ 72 ∉ h.name := by
  have hname := eq_of_beq hconn
  have hletter : ∀ b ∈ h.name, (if 65 ≤ b ∧ b ≤ 90 then b + 32 else b) ∈ ascii "connection" :=
    fun b hb => hname ▸ List.mem_map_of_mem hb
  exact ⟨fun hP => absurd (hletter 80 hP) (by decide), fun hH => absurd (hletter 72 hH) (by decide)⟩

/-- The `Connection` headers ask for the first branch only through their values. -/
theorem asksCredentials_headersText {headers : List Header}
    (hconn : ∀ h ∈ headers, h.isConnection = true) {t : Bytes}
    (h : AsksCredentials (headersText headers ++ t)) :
    (∃ h ∈ headers, AsksCredentials h.value) ∨ AsksCredentials t := by
  induction headers with
  | nil => exact Or.inr h
  | cons hd headers ih =>
    obtain ⟨hP, hH⟩ := Header.notMem_name (hconn hd List.mem_cons_self)
    have htext : headersText (hd :: headers) ++ t =
        hd.name ++ (ascii ": " ++ (hd.value ++ (crlf ++ (headersText headers ++ t)))) := by
      simp only [headersText, List.flatMap_cons, Header.text, List.append_assoc]
    rw [htext] at h
    have hvalue := (h.of_append hP hH).of_append (by decide) (by decide)
    rcases hvalue.of_append_crlf with hv | hrest
    · exact Or.inl ⟨hd, List.mem_cons_self, hv⟩
    · rcases ih (fun h hmem => hconn h (List.mem_cons_of_mem hd hmem)) hrest with
        ⟨h', hmem, hv⟩ | ht
      · exact Or.inl ⟨h', List.mem_cons_of_mem hd hmem, hv⟩
      · exact Or.inr ht

namespace HttpRequest

variable (r : HttpRequest)

/-- The line and the headers arrive whole; the body up to a NUL. -/
theorem received_eq : r.received = r.line ++ (crlf ++ (headersText r.headers ++
    (crlf ++ r.body.takeWhile (· != 0)))) := by
  rw [received, requestText, takeWhile_append_of_onLine fun b hb => (r.line_ok b hb).1,
    takeWhile_append_of_onLine fun _ => ne_zero_of_mem_crlf,
    takeWhile_append_of_onLine fun _ => ne_zero_of_mem_headersText,
    takeWhile_append_of_onLine fun _ => ne_zero_of_mem_crlf]

theorem notMem_line : 13 ∉ r.line := fun hmem => (r.line_ok 13 hmem).2.2 rfl

theorem line_infix_received : r.line <:+: r.received := by
  rw [received_eq]
  exact (List.prefix_append _ _).isInfix

theorem infix_received_of_mem_connection {v : Bytes} (hv : v ∈ r.connection) :
    v <:+: r.received := by
  obtain ⟨h, hh, rfl⟩ := List.mem_map.mp hv
  have hmem : h ∈ r.headers := (List.mem_filter.mp hh).1
  have htext : h.text <:+: headersText r.headers := by
    rw [headersText, List.flatMap_def]
    exact List.infix_of_mem_flatten (List.mem_map_of_mem hmem)
  have hvalue : h.value <:+: h.text :=
    ⟨h.name ++ ascii ": ", crlf, by simp [Header.text]⟩
  rw [received_eq]
  exact hvalue.trans (htext.trans ⟨r.line ++ crlf, crlf ++ r.body.takeWhile (· != 0), by simp⟩)

/-! ### When the line decides -/

/-- A line that decides leaves the headers and the body no say. -/
theorem routedByLine_of_lineDecides (h : r.LineDecides) : r.RoutedByLine := by
  obtain ⟨value, hvalue, hkeep⟩ := h
  -- every request of the kind selects the same branch, `r` being one of them
  have hall : ∀ r' : HttpRequest, r'.line = r.line → r'.connection = r.connection →
      r'.branch = if value = ascii "keep-alive" then some .credentials else none := by
    intro r' hline hconn
    have hextract : extractConnectionHeader r'.received = value := by
      rw [received_eq]
      exact extractConnectionHeader_line r'.notMem_line (hline ▸ hvalue) _
    rw [branch, clientConnection, hextract]
    by_cases hv : value = ascii "keep-alive"
    · have hasks : AsksCredentials r'.received := by
        rcases hkeep hv with hl | ⟨v, hmem, hl⟩
        · exact hl.mono (hline ▸ r'.line_infix_received)
        · exact hl.mono (r'.infix_received_of_mem_connection (hconn ▸ hmem))
      rw [if_neg (not_not.mpr hv), if_pos hv, dispatch_eq_credentials_iff.mpr hasks]
    · rw [if_pos hv, if_neg hv]
  intro r' hline hconn
  rw [hall r' hline hconn, hall r rfl rfl]

/-! ### When it does not -/

/-- The buffer has room for one more header and some body beside the first line
and the `Connection` headers. -/
def HasRoom : Prop := r.line.length + (headersText r.connectionHeaders).length ≤ 1900

/-- The header that is taken for a `Connection` header and is none. -/
def xConnection (value : Bytes) (h : ∀ b ∈ value, OnLine b) : Header where
  name := ascii "X-Connection"
  value := value
  name_ok := List.all_iff_forall_prop.mp (by decide)
  value_ok := h

variable {r}

/-- The request with the same line and `Connection` headers, and one more header. -/
def withHeader (hroom : r.HasRoom) (value : Bytes) (h : ∀ b ∈ value, OnLine b)
    (hlen : value.length ≤ 20) : HttpRequest where
  line := r.line
  headers := xConnection value h :: r.connectionHeaders
  body := []
  line_ok := r.line_ok
  fits := by
    have hx : (xConnection value h).text.length = 16 + value.length := by
      simp only [Header.text, xConnection, crlf, List.length_append]
      have h1 : (ascii "X-Connection").length = 12 := by decide
      have h2 : (ascii ": ").length = 2 := by decide
      simp only [h1, h2, List.length_cons, List.length_nil]
      omega
    rw [HasRoom] at hroom
    simp only [requestText, headersText, List.flatMap_cons, List.length_append, hx, crlf,
      List.length_cons, List.length_nil, bufferSize] at hroom ⊢
    omega

/-- The request with the same line, the `Connection` headers and a body. -/
def withBody (hroom : r.HasRoom) (body : Bytes) (hlen : body.length ≤ 20) : HttpRequest where
  line := r.line
  headers := r.connectionHeaders
  body := body
  line_ok := r.line_ok
  fits := by
    rw [HasRoom] at hroom
    simp only [requestText, List.length_append, crlf, List.length_cons, List.length_nil,
      bufferSize] at hroom ⊢
    omega

theorem connection_withHeader (hroom : r.HasRoom) {value : Bytes} (h : ∀ b ∈ value, OnLine b)
    (hlen : value.length ≤ 20) : (withHeader hroom value h hlen).connection = r.connection := by
  have hx : (xConnection value h).isConnection = false := by
    simp only [Header.isConnection, xConnection]
    decide
  simp only [connection, connectionHeaders, withHeader, List.filter_cons, hx, Bool.false_eq_true,
    if_false, List.filter_filter, Bool.and_self]

theorem connection_withBody (hroom : r.HasRoom) {body : Bytes} (hlen : body.length ≤ 20) :
    (withBody hroom body hlen).connection = r.connection := by
  simp only [connection, connectionHeaders, withBody, List.filter_filter, Bool.and_self]

/-- Another header is taken for the `Connection` header. -/
theorem extract_withHeader (hroom : r.HasRoom) (hline : lineConnection r.line = none)
    {value : Bytes} (h : ∀ b ∈ value, OnLine b) (hlen : value.length ≤ 20) :
    extractConnectionHeader (withHeader hroom value h hlen).received =
      value.dropWhile (· == 32) := by
  have hvalue : 13 ∉ ascii " " ++ value := by
    rw [List.mem_append]
    rintro (hmem | hmem)
    · exact absurd hmem (by decide)
    · exact (h 13 hmem).2.2 rfl
  have hcut : cut (ascii "Connection:") (crlf ++ ascii "X-Connection:") =
      some (crlf ++ ascii "X-", []) := by decide
  have htext : (xConnection value h).text =
      ascii "X-Connection:" ++ ((ascii " " ++ value) ++ crlf) := by
    have h1 : ascii ": " = ascii ":" ++ ascii " " := by decide
    have h2 : ascii "X-Connection:" = ascii "X-Connection" ++ ascii ":" := by decide
    simp only [Header.text, xConnection, h1, h2, List.append_assoc]
  have hskip : (ascii " " ++ value).dropWhile (· == 32) = value.dropWhile (· == 32) := rfl
  rw [← hskip, received_eq]
  refine extractConnectionHeader_of_cut (p := r.line ++ (crlf ++ ascii "X-"))
    (t := headersText r.connectionHeaders ++ (crlf ++ [])) ?_ hvalue
  have hbody : (withHeader hroom value h hlen).body.takeWhile (· != 0) = [] := rfl
  have hheaders : headersText (withHeader hroom value h hlen).headers =
      (xConnection value h).text ++ headersText r.connectionHeaders := rfl
  have hl : (withHeader hroom value h hlen).line = r.line := rfl
  rw [hbody, hheaders, hl, cut_connection_of_line hline, htext]
  simp only [List.append_assoc]
  rw [← List.append_assoc crlf, cut_append hcut]
  simp

/-- **Which request lines decide.** A line that contains `Connection:` – saying
something other than `keep-alive`, or along with the words of the first test –
fixes the branch for all headers and bodies; and where there is room for another
header and a body, no other line does. -/
theorem routed_by_line_iff (r : HttpRequest) :
    (r.LineDecides → r.RoutedByLine) ∧ (r.HasRoom → r.RoutedByLine → r.LineDecides) := by
  refine ⟨r.routedByLine_of_lineDecides, fun hroom hrouted => ?_⟩
  rcases hline : lineConnection r.line with _ | value
  · -- another header decides whether the connection is closed
    have hkeep := hrouted (withHeader hroom (ascii "keep-alive")
      (List.all_iff_forall_prop.mp (by decide)) (by decide)) rfl (connection_withHeader hroom _ _)
    have hclose := hrouted (withHeader hroom (ascii "close")
      (List.all_iff_forall_prop.mp (by decide)) (by decide)) rfl (connection_withHeader hroom _ _)
    rw [branch, clientConnection, extract_withHeader hroom hline, if_neg (by decide)] at hkeep
    rw [branch, clientConnection, extract_withHeader hroom hline, if_pos (by decide)] at hclose
    exact absurd (hkeep.trans hclose.symm) (by simp)
  · refine ⟨value, hline, fun hvalue => ?_⟩
    by_contra hasks
    have hextract : ∀ body hlen,
        extractConnectionHeader (withBody hroom body hlen).received = ascii "keep-alive" := by
      intro body hlen
      rw [received_eq, ← hvalue]
      exact extractConnectionHeader_line r.notMem_line hline _
    have hbody := hrouted (withBody hroom (ascii "POST /credentials") (by decide)) rfl
      (connection_withBody hroom _)
    have hempty := hrouted (withBody hroom [] (by decide)) rfl (connection_withBody hroom _)
    rw [branch, clientConnection, hextract, if_neg (by decide)] at hbody hempty
    have hfirst : AsksCredentials (withBody hroom [] (by decide)).received := by
      rw [← dispatch_eq_credentials_iff, Option.some.inj (hempty.trans hbody.symm),
        dispatch_eq_credentials_iff]
      refine Or.inl ?_
      rw [received_eq, ← List.append_assoc, ← List.append_assoc, ← List.append_assoc]
      exact (List.suffix_append _ _).isInfix
    refine hasks ?_
    rw [received_eq] at hfirst
    rcases hfirst.of_append_crlf with hl | hrest
    · exact Or.inl hl
    · rcases asksCredentials_headersText (fun h hmem => (List.mem_filter.mp hmem).2) hrest with
        ⟨h, hmem, hv⟩ | hbody'
      · exact Or.inr ⟨h.value, List.mem_map_of_mem hmem, hv⟩
      · have hcrlf : AsksCredentials crlf := hbody'
        exact absurd hcrlf (by rw [AsksCredentials]; decide)

/-- A request for the front page, from a browser. -/
def indexPage : HttpRequest where
  line := ascii "GET /index.html HTTP/1.1"
  headers := [⟨ascii "Connection", ascii "keep-alive", List.all_iff_forall_prop.mp (by decide),
    List.all_iff_forall_prop.mp (by decide)⟩]
  body := []
  line_ok := List.all_iff_forall_prop.mp (by decide)
  fits := by decide

/-- A login whose line also says what the `Connection` header would have to. -/
def loginByLine : HttpRequest where
  line := ascii "POST /credentials HTTP/1.1 Connection: keep-alive"
  headers := []
  body := ascii "username=user1&password=pass1"
  line_ok := List.all_iff_forall_prop.mp (by decide)
  fits := by decide

example : loginByLine.branch = some .credentials := by decide +kernel

/-- The line of this login decides, that of an ordinary request does not. -/
theorem routed_by_line_login : loginByLine.RoutedByLine ∧ ¬ indexPage.RoutedByLine := by
  refine ⟨(routed_by_line_iff loginByLine).1 ⟨ascii "keep-alive", by decide +kernel, fun _ =>
    Or.inl (Or.inl ⟨[], ascii " HTTP/1.1 Connection: keep-alive", by decide⟩)⟩,
    fun h => ?_⟩
  obtain ⟨value, hvalue, -⟩ :=
    (routed_by_line_iff indexPage).2 (by rw [HasRoom]; decide) h
  have hnone : lineConnection indexPage.line = none := by decide +kernel
  exact absurd (hnone.symm.trans hvalue) (by simp)

/-- The same request, sent from a link on the mailbox page. -/
def indexPageFromInbox : HttpRequest where
  line := ascii "GET /index.html HTTP/1.1"
  headers := [⟨ascii "Connection", ascii "keep-alive", List.all_iff_forall_prop.mp (by decide),
      List.all_iff_forall_prop.mp (by decide)⟩,
    ⟨ascii "Referer", ascii "http://localhost:8080/inbox",
      List.all_iff_forall_prop.mp (by decide), List.all_iff_forall_prop.mp (by decide)⟩]
  body := []
  line_ok := List.all_iff_forall_prop.mp (by decide)
  fits := by decide

/-- The page the link was on decides: the front page is asked for and the mailbox
is shown. -/
theorem referer_changes_branch : indexPageFromInbox.line = indexPage.line ∧
    indexPageFromInbox.connection = indexPage.connection ∧
    indexPage.branch = some .getPage ∧ indexPageFromInbox.branch = some .inbox ∧
    ¬ indexPage.RoutedByLine := by
  have hpage : indexPage.branch = some .getPage := by decide +kernel
  have hinbox : indexPageFromInbox.branch = some .inbox := by decide +kernel
  refine ⟨rfl, rfl, hpage, hinbox, fun h => ?_⟩
  have heq := h indexPageFromInbox rfl rfl
  rw [hpage, hinbox] at heq
  exact absurd heq (by decide)

end HttpRequest

end PennCloud
