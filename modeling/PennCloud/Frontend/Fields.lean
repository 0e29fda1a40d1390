import PennCloud.Frontend.Client
import PennCloud.Frontend.Dispatch

/-!
# What a request says

Once a request has found its branch, `client_connection` of
`frontend/http_server.cc` takes it apart with `find` and `substr`: the first line
and the address in it, the query behind the question mark, the session in the
`Cookie` header, the body behind the blank line and the fields of a form. Where a
word is not found, `npos` goes into the arithmetic of the positions, and what comes
out of it is part of what is said here: an address of a line without blanks is the
whole line, and a body without a blank line before it begins at the fourth
character.
-/

namespace PennCloud

open Wire Text Calls

/-! ### The first line -/

/-- The first line; everything, if there is no end of a line. -/
def requestLine (request : Bytes) : Bytes := ((cut crlf request).map Prod.fst).getD request

/-- The address: what stands between the first two blanks of the first line. -/
def requestUrl (request : Bytes) : Bytes :=
  match cut (ascii " ") (requestLine request) with
  | none => requestLine request
  | some (_, rest) => ((cut (ascii " ") rest).map Prod.fst).getD rest

/-- The query: what follows the first question mark of the address. -/
def queryString (request : Bytes) : Bytes :=
  ((cut (ascii "?") (requestUrl request)).map Prod.snd).getD []

/-! ### The session -/

/-- `extractSessionId`: what follows the first `session_id=` after `Cookie:`, up to
a semicolon or the end of the line. -/
def extractSessionId (request : Bytes) : Bytes :=
  match cut (ascii "Cookie:") request with
  | none => []
  | some (_, rest) =>
    match cut (ascii "session_id=") rest with
    | none => []
    | some (_, value) => (value.takeWhile (· ≠ 59)).takeWhile (· ≠ 13)

/-! ### The body -/

/-- What follows the first blank line. -/
def requestBody (request : Bytes) : Bytes := ((cut (crlf ++ crlf) request).map Prod.snd).getD []

/-- `request.substr(request.find("\r\n\r\n") + 4)`, which does not ask whether there
is a blank line: without one the text is taken from its fourth character on. -/
def bodyBehind (request : Bytes) : Except Abort Bytes :=
  match cut (crlf ++ crlf) request with
  | some (_, body) => .ok body
  | none => if request.length < 3 then .error .outOfRange else .ok (request.drop 3)

theorem bodyBehind_ok {request : Bytes} (h : 3 ≤ request.length) :
    ∃ body, bodyBehind request = .ok body := by
  rw [bodyBehind]
  rcases cut (crlf ++ crlf) request with _ | ⟨p, body⟩
  · exact ⟨_, if_neg (Nat.not_lt.mpr h)⟩
  · exact ⟨body, rfl⟩

/-- `MAX_FILE_SIZE`. -/
def maxFileSize : ℕ := 2 * 1024 * 1024

/-- The greatest `int`. -/
def maxInt : ℕ := 2 ^ 31 - 1

/-- The number that a text begins with. -/
def leadingNumber (s : Bytes) : ℕ :=
  (s.takeWhile fun b => 48 ≤ b && b ≤ 57).foldl (fun n b => 10 * n + (b.toNat - 48)) 0

/-- The value of the `Content-Length` header, if there is one. A header that no
digit follows, and a number that does not fit, are exceptions. -/
def contentLength (request : Bytes) : Handler ℕ :=
  match cut (ascii "Content-Length:") request with
  | none => return 0
  | some (_, rest) =>
    let digits := rest.dropWhile fun b => !(48 ≤ b && b ≤ 57)
    if digits = [] then .fail .outOfRange
    else if leadingNumber digits > maxInt then .fail .outOfRange
    else return leadingNumber digits

/-- More of the body is read until it is long enough or nothing comes. -/
def readMore (contentLen : ℕ) : Bytes → List Bytes → Bytes
  | body, [] => body
  | body, chunk :: chunks =>
    if body.length < contentLen then readMore contentLen (body ++ chunk) chunks else body

/-- `readRequestBody`, where `received` is what `read` returns. -/
def readRequestBody (received : List Bytes) (request : Bytes) : Handler Bytes := do
  let contentLen ← contentLength request
  let body := ((cut (crlf ++ crlf) request).map Prod.snd).getD (request.drop 3)
  return readMore (min contentLen maxFileSize) body received

/-! ### Forms -/

/-- `%2F` is a slash. -/
def decodeSlashes : Bytes → Bytes
  | [] => []
  | 37 :: 50 :: 70 :: q => 47 :: decodeSlashes q
  | b :: q => b :: decodeSlashes q

/-- `parseQueryParams`: the assignments to the map, from the first to the last. -/
def parseQueryParams (q : Bytes) : List (Bytes × Bytes) :=
  (getlines 38 (decodeSlashes q)).filterMap (cut (ascii "="))

/-- The value of a key in the map that a list of assignments leaves: the last one
counts. -/
def param (params : List (Bytes × Bytes)) (key : Bytes) : Option Bytes :=
  params.reverse.lookup key

/-- **The assignments are those of a map**, which is given by its fields. -/
def IsMapOf (params fields : List (Bytes × Bytes)) : Prop :=
  ∀ key, param params key = fields.lookup key

theorem param_cons (f : Bytes × Bytes) (params : List (Bytes × Bytes)) (key : Bytes) :
    param (f :: params) key = (param params key).or ([f].lookup key) := by
  rw [param, List.reverse_cons, List.lookup_append]
  rfl

/-- The later assignments count. -/
theorem param_append (params params' : List (Bytes × Bytes)) (key : Bytes) :
    param (params ++ params') key = (param params' key).or (param params key) := by
  rw [param, List.reverse_append, List.lookup_append]
  rfl

/-- What is done to the values that are assigned is done to the value of a key. -/
theorem param_map (g : Bytes → Bytes) (params : List (Bytes × Bytes)) (key : Bytes) :
    param (params.map (Prod.map id g)) key = (param params key).map g := by
  induction params with
  | nil => rfl
  | cons f params ih =>
    have hone : [Prod.map id g f].lookup key = ([f].lookup key).map g := by
      obtain ⟨k, v⟩ := f
      rw [Prod.map_apply, List.lookup_singleton, List.lookup_singleton, id]
      split_ifs <;> rfl
    rw [List.map_cons, param_cons, param_cons, ih, hone]
    rcases param params key with _ | v <;> rfl

/-- The value of a key was assigned to it. -/
theorem mem_of_param {params : List (Bytes × Bytes)} {key v : Bytes}
    (h : param params key = some v) : (key, v) ∈ params := by
  rw [param, List.lookup_eq_some_iff] at h
  obtain ⟨l₁, l₂, hsplit, -⟩ := h
  rw [← List.mem_reverse, hsplit]
  exact List.mem_append_right _ List.mem_cons_self

/-- What is assigned in a piece does not contain what ends the pieces. -/
theorem notMem_of_assignment {delim : UInt8} {word q : Bytes} {f : Bytes × Bytes}
    (h : f ∈ (getlines delim q).filterMap (cut word)) : delim ∉ f.2 := by
  obtain ⟨piece, hpiece, hcut⟩ := List.mem_filterMap.mp h
  intro hmem
  refine notMem_of_mem_getlines hpiece ?_
  rw [eq_append_of_cut hcut]
  exact List.mem_append_right _ hmem

/-- A field whose key is there once is found. -/
theorem lookup_of_mem {fields : List (Bytes × Bytes)} (h : (fields.map Prod.fst).Nodup)
    {f : Bytes × Bytes} (hf : f ∈ fields) : fields.lookup f.1 = some f.2 := by
  obtain ⟨l₁, l₂, rfl⟩ := List.append_of_mem hf
  refine List.lookup_eq_some_iff.mpr ⟨l₁, l₂, rfl, fun g hg => ?_⟩
  rw [List.map_append, List.map_cons, List.nodup_append] at h
  exact bne_iff_ne.mpr fun heq => h.2.2 _ (List.mem_map_of_mem hg) _ List.mem_cons_self heq.symm

/-- Where no key is assigned to twice, the order does not matter. -/
theorem isMapOf_of_nodup {fields : List (Bytes × Bytes)} (h : (fields.map Prod.fst).Nodup) :
    IsMapOf fields fields := by
  intro key
  induction fields with
  | nil => rfl
  | cons f fields ih =>
    obtain ⟨k, v⟩ := f
    rw [List.map_cons, List.nodup_cons] at h
    rw [param_cons, ih h.2, List.lookup_singleton, List.lookup_cons]
    rcases hkey : key == k with _ | _
    · exact Option.or_none
    · have hnone : fields.lookup key = none := by
        refine List.lookup_eq_none_iff.mpr fun g hg => ?_
        rw [bne_iff_ne]
        rintro heq
        exact h.1 (List.mem_map.mpr ⟨g, hg, by rw [← heq, eq_of_beq hkey]⟩)
      rw [hnone]
      rfl

end PennCloud
