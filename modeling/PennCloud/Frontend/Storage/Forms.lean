import PennCloud.Frontend.Fields
import PennCloud.Frontend.Storage.Service
import Mathlib.Data.List.DropRight

/-!
# What a storage request says

Before a handler of `frontend/storage/storage_service.cc` works on the row it takes
the text of the request apart: the query of the first line or the form in the body,
both with `%xx` decoded, and for an upload the parts of a multipart body, some of it
still to be read from the client. The parameters it finds are those of
`PennCloud.StorageRequest`.

All of this is written with `find`, `substr`, `stoi` and `stoul`, and nothing catches
what they throw, but for one place. So what a request says is an `Except` here.

* `PennCloud.urlDecode2` – decoding;
* `PennCloud.readChunkedBodyRaw` – a body in chunks;
* `PennCloud.uploadParams` – an upload.
-/

namespace PennCloud

open Wire Calls Text

/-! ### Decoding -/

/-- `std::stoi` in base 16 of two characters, as a `char`; nothing when it throws. A
blank or a sign may stand before the digit, and what follows the digits is not looked
at. -/
def stoiHex (a b : UInt8) : Option UInt8 :=
  match hexDigit a with
  | some d => some (((hexDigit b).map fun d' => 16 * d + d').getD d)
  | none =>
    if isSpace a || a == 43 then hexDigit b
    else if a == 45 then (hexDigit b).map fun d => 0 - d
    else none

/-- `urlDecode2`: a percent sign with two characters behind it is decoded, whatever
they are. -/
def urlDecode2 : Bytes → Except Abort Bytes
  | [] => .ok []
  | 37 :: a :: b :: s =>
    match stoiHex a b with
    | none => .error .invalidArgument
    | some c => (urlDecode2 s).map (c :: ·)
  | 43 :: s => (urlDecode2 s).map (32 :: ·)
  | c :: s => (urlDecode2 s).map (c :: ·)

/-- `parseQueryParamsStorage`: the text is decoded first and then cut into
assignments. -/
def parseQueryParamsStorage (query : Bytes) : Except Abort (List (Bytes × Bytes)) :=
  (urlDecode2 query).map fun q => (getlines 38 q).filterMap (cut (ascii "="))

/-- The value of a parameter; the empty text, if it is missing. -/
def textParam (params : List (Bytes × Bytes)) (key : String) : Bytes :=
  (param params (ascii key)).getD []

/-! ### The query and the form -/

/-- The query of the first line: what follows the first question mark, up to a
blank. -/
def lineQuery (request : Bytes) : Option Bytes :=
  (cut (ascii "?") (requestLine request)).map fun r => r.2.takeWhile (· ≠ 32)

/-- The parameters in the first line. -/
def storageParams (request : Bytes) : Except Abort (List (Bytes × Bytes)) :=
  match lineQuery request with
  | none => .ok []
  | some query => parseQueryParamsStorage query

/-- `MAX_FILE_SIZE` of the storage service. -/
def maxStorageSize : ℕ := 10 * 1024 * 1024

/-- How much of a body is waited for: what the `Content-Length` header says. A header
that cannot be read counts as none here, and none as the greatest size. -/
def storageLength (request : Bytes) : ℕ :=
  let n := match cut (ascii "Content-Length:") request with
    | none => 0
    | some (_, rest) =>
      let number := leadingNumber (rest.dropWhile fun b => !(48 ≤ b && b ≤ 57))
      if number > maxInt then 0 else number
  if n = 0 ∨ n > maxStorageSize then maxStorageSize else n

/-- `readRequestBodyStorage`, where `received` is what `read` returns. -/
def readRequestBodyStorage (received : List Bytes) (request : Bytes) : Except Abort Bytes :=
  (bodyBehind request).map fun body => readMore (storageLength request) body received

/-- The fields of the form in the body. -/
def storageForm (received : List Bytes) (request : Bytes) :
    Except Abort (List (Bytes × Bytes)) := do
  let body ← readRequestBodyStorage received request
  parseQueryParamsStorage body

/-! ### A body in chunks -/

/-- `recvLine`: what is received up to the end of a line, the end included, and what
is left; everything, when no line ends. -/
def recvLine (stream : Bytes) : Bytes × Bytes :=
  match cut crlf stream with
  | none => (stream, [])
  | some (line, rest) => (line ++ crlf, rest)

/-- A number without the `0x` before it. -/
def withoutBase : Bytes → Bytes
  | 48 :: x :: b :: s =>
    if (x = 120 ∨ x = 88) ∧ (hexDigit b).isSome then b :: s else 48 :: x :: b :: s
  | s => s

/-- `std::stoul` in base 16: blanks, a sign and `0x` may stand before the digits, and
a number with a minus sign is taken modulo `2 ^ 64`. -/
def stoulHex (s : Bytes) : Except Abort ℕ :=
  let signed := s.dropWhile isSpace
  let negative := signed.head? = some 45
  let unsigned := if negative ∨ signed.head? = some 43 then signed.tail else signed
  let digits := (withoutBase unsigned).takeWhile fun b => (hexDigit b).isSome
  let n := digits.foldl (fun n b => 16 * n + ((hexDigit b).getD 0).toNat) 0
  if digits = [] then .error .invalidArgument
  else if 2 ^ 64 ≤ n then .error .outOfRange
  else .ok (if negative then (2 ^ 64 - n) % 2 ^ 64 else n)

/-- `vector<char>::max_size`. -/
def maxVector : ℕ := 2 ^ 63 - 1

/-- The size of the chunk that a stream begins with: the line without its last two
characters, which are taken for the end of the line. -/
def chunkHeader (stream : Bytes) : Except Abort ℕ :=
  let line := (recvLine stream).1
  stoulHex (line.take (line.length - 2))

/-- What follows a chunk: its line, its data and the line end behind it are taken. -/
def behindChunk (size : ℕ) (stream : Bytes) : Bytes :=
  (recvLine ((recvLine stream).2.drop size)).2

/-- The loop of `readChunkedBodyRaw`, on the bytes that are still to come: the body,
and what is left of them. -/
def readChunks : ℕ → Bytes → Bytes → Except Abort (Bytes × Bytes)
  | 0, _, _ => .error .running
  | rounds + 1, body, stream =>
    if (recvLine stream).1.length < 2 then .error .runtimeError
    else
      match chunkHeader stream with
      | .error e => .error e
      | .ok size =>
        if size = 0 then .ok (body, (recvLine (recvLine stream).2).2)
        -- the new size of the vector is computed modulo `2 ^ 64`, and then the data goes
        -- behind its end
        else if 2 ^ 64 ≤ body.length + size then .error .undefined
        else if maxVector < body.length + size then .error .lengthError
        else if (recvLine stream).2.length < size then .error .runtimeError
        else readChunks rounds (body ++ (recvLine stream).2.take size) (behindChunk size stream)

/-- `readChunkedBodyRaw`. -/
def readChunkedBodyRaw (stream : Bytes) : Except Abort (Bytes × Bytes) :=
  readChunks (stream.length + 1) [] stream

theorem recvLine_append (stream : Bytes) : (recvLine stream).1 ++ (recvLine stream).2 = stream := by
  rw [recvLine]
  rcases h : cut crlf stream with _ | ⟨line, rest⟩
  · exact List.append_nil stream
  · exact (eq_append_of_cut h).symm

theorem length_recvLine (stream : Bytes) :
    (recvLine stream).1.length + (recvLine stream).2.length = stream.length := by
  rw [← List.length_append, recvLine_append]

/-! ### Uploads -/

/-- `extractBoundary`: two dashes and the boundary that the header names. -/
def extractBoundary (request : Bytes) : Bytes :=
  match cut (ascii "Content-Type: multipart/form-data;") request with
  | none => []
  | some (_, rest) =>
    match cut (ascii "boundary=") rest with
    | none => []
    | some (_, b) => ascii "--" ++ ((cut crlf b).map Prod.fst).getD b

/-- `parseMultipartFieldStorage`: the first line of the part with a name. -/
def parseMultipartFieldStorage (body : Bytes) (fieldName : String) : Bytes :=
  match cut (ascii ("name=\"" ++ fieldName ++ "\"")) body with
  | none => []
  | some (_, rest) =>
    match cut (crlf ++ crlf) rest with
    | none => []
    | some (_, value) => ((cut crlf value).map Prod.fst).getD []

/-- `parseMultipartFilenameStorageHeader`: what stands between the quotes, without the
folders before the last slash or backslash. -/
def parseMultipartFilenameStorageHeader (headerPart : Bytes) : Bytes :=
  match cut (ascii "filename=\"") headerPart with
  | none => []
  | some (_, rest) =>
    let filename := rest.takeWhile (· ≠ 34)
    let base := filename.rtakeWhile fun b => b ≠ 47 ∧ b ≠ 92
    if base = [] then filename else base

/-- The name of an upload: what follows the first slash, if there still is one. -/
def uploadName (headerPart : Bytes) : Bytes :=
  let filename := parseMultipartFilenameStorageHeader headerPart
  ((cut (ascii "/") filename).map Prod.snd).getD filename

/-- Where the name of an upload is looked for: behind the headers, or, with a part for
the folder, behind the first boundary. Without one, `npos` and the length of the
boundary are added. -/
def namePart (request boundary body : Bytes) (hasFolder : Bool) : Except Abort Bytes :=
  if hasFolder then
    match cut boundary request with
    | some (_, rest) => .ok rest
    | none =>
      if request.length < boundary.length - 1 then .error .outOfRange
      else .ok (request.drop (boundary.length - 1))
  else .ok body

/-- The loop of `readMultipartBody`: more is received, and that at least once, until
the last boundary is there or nothing comes. -/
def readUntil (finalMarker : Bytes) : Bytes → List Bytes → Bytes
  | buf, [] => buf
  | buf, tmp :: received =>
    if (cut finalMarker (buf ++ tmp)).isSome then buf ++ tmp
    else readUntil finalMarker (buf ++ tmp) received

/-- The body of an upload, all of it. -/
def rawBody (received : List Bytes) (request boundary body : Bytes) : Except Abort Bytes :=
  if found "Transfer-Encoding: chunked" request then
    (readChunkedBodyRaw received.flatten).map Prod.fst
  else .ok (readUntil (crlf ++ boundary ++ ascii "--") body received)

/-- Where the data of the file begins: behind a blank line, or, with a part for the
folder, behind the next one. Without that, `npos` goes into the sum. -/
def dataStart (hasFolder : Bool) (raw : Bytes) : Option ℕ :=
  (cut (crlf ++ crlf) raw).map fun r =>
    if hasFolder then
      match cut (crlf ++ crlf) r.2 with
      | some (part, _) => r.1.length + 4 + part.length + 4
      | none => r.1.length + 7
    else r.1.length + 4

/-- Where it ends: at the last boundary behind that place, or with the body. -/
def dataEnd (boundary raw : Bytes) (start : ℕ) : ℕ :=
  match cutLast (crlf ++ boundary) raw with
  | some (before, _) => if before.length < start then raw.length else before.length
  | none => raw.length

/-- The data of the file. A place behind the end of the body is not noticed before the
length is negative. -/
def extractData (boundary raw : Bytes) (start : ℕ) : Except Abort Bytes :=
  if dataEnd boundary raw start < start then .error .lengthError
  else .ok ((raw.drop start).take (dataEnd boundary raw start - start))

theorem isOk_extractData {boundary raw : Bytes} {start : ℕ} :
    (extractData boundary raw start).isOk ↔ start ≤ raw.length := by
  have hend : dataEnd boundary raw start < start ↔ raw.length < start := by
    rw [dataEnd]
    split
    · next before after hcut =>
      obtain ⟨⟨p, q⟩, hrev, heq⟩ := Option.map_eq_some_iff.mp hcut
      obtain ⟨rfl, -⟩ := Prod.mk.inj heq
      have hlen := congrArg List.length (eq_append_of_cut hrev)
      simp only [List.length_append, List.length_reverse] at hlen ⊢
      split_ifs with hbefore
      · exact Iff.rfl
      · exact iff_of_false hbefore (by omega)
    · exact Iff.rfl
  rw [extractData]
  split_ifs with h
  · exact iff_of_false Bool.false_ne_true (by omega)
  · exact iff_of_true rfl (by omega)

/-- What a handler makes of a request before it works on the row. -/
inductive Parsed (α : Type) where
  /-- It refuses it, with a page. -/
  | refused (page : Bytes)
  /-- It has found its parameters. -/
  | found (params : α)
  deriving DecidableEq

/-- The parameters, made into others. -/
def Parsed.map {α β : Type} (f : α → β) : Parsed α → Parsed β
  | .refused page => .refused page
  | .found params => .found (f params)

/-- The parameters of an upload. -/
structure Upload where
  /-- The folder. -/
  folder : Bytes
  /-- The name of the file. -/
  filename : Bytes
  /-- Its data. -/
  fileData : Bytes
  deriving DecidableEq

/-- The part for the folder, which is looked for when the query names none. -/
def partFolder (params : List (Bytes × Bytes)) (request : Bytes) : Bytes :=
  if textParam params "folder" = [] then parseMultipartFieldStorage request "folder" else []

/-- The last steps: the body is received and the data cut out. -/
def uploadData (received : List Bytes) (request boundary body : Bytes) (hasFolder : Bool) :
    Except Abort (Parsed Bytes) := do
  let raw ← rawBody received request boundary body
  match dataStart hasFolder raw with
  | none => return .refused (ascii "<html><body>Malformed multipart body.</body></html>")
  | some start =>
    let fileData ← extractData boundary raw start
    return .found fileData

/-- The steps behind the headers, on a body with a boundary. -/
def uploadFile (received : List Bytes) (request body : Bytes) (params : List (Bytes × Bytes)) :
    Except Abort (Parsed Upload) := do
  let boundary := extractBoundary request
  let hasFolder := partFolder params request ≠ []
  let folder := if textParam params "folder" = [] then partFolder params request
    else textParam params "folder"
  let headerPart ← namePart request boundary body hasFolder
  let filename := uploadName headerPart
  if isValidName filename = false then
    return .refused
      (ascii "<html><body>Missing file name or incorrect format of filename.</body></html>")
  else
    let data ← uploadData received request boundary body hasFolder
    return data.map fun fileData => ⟨folder, filename, fileData⟩

/-- What `webStorageUpload` reads from a request. -/
def uploadParams (received : List Bytes) (request : Bytes) : Except Abort (Parsed Upload) := do
  let params ← storageParams request
  if extractBoundary request = [] then
    return .refused (ascii "<html><body>No multipart boundary.</body></html>")
  else
    match cut (crlf ++ crlf) request with
    | none => return .refused (ascii "<html><body>Missing header terminator.</body></html>")
    | some (_, body) => uploadFile received request body params

/-- The boundary is a part of the request, but for the two dashes. -/
theorem length_extractBoundary (request : Bytes) :
    (extractBoundary request).length - 1 ≤ request.length := by
  rw [extractBoundary]
  split
  · exact Nat.zero_le _
  · next before rest hcut =>
    split
    · exact Nat.zero_le _
    · next before' b hcut' =>
      have hline : (((cut crlf b).map Prod.fst).getD b).length ≤ b.length := by
        rcases h : cut crlf b with _ | ⟨line, more⟩
        · exact Nat.le_refl _
        · have hlen := congrArg List.length (eq_append_of_cut h)
          simp only [List.length_append] at hlen
          simp only [Option.map_some, Option.getD_some]
          omega
      have hrequest := congrArg List.length (eq_append_of_cut hcut)
      have hrest := congrArg List.length (eq_append_of_cut hcut')
      have hword : (ascii "boundary=").length = 9 := by decide
      have hdashes : (ascii "--").length = 2 := by decide
      simp only [List.length_append, hword] at hrequest hrest
      rw [List.length_append, hdashes]
      omega

theorem namePart_ok (request body : Bytes) (hasFolder : Bool) :
    ∃ part, namePart request (extractBoundary request) body hasFolder = .ok part := by
  have hlen := Nat.not_lt.mpr (length_extractBoundary request)
  rw [namePart]
  cases hasFolder with
  | false => exact ⟨body, rfl⟩
  | true =>
    rcases cut (extractBoundary request) request with _ | ⟨before, rest⟩
    · exact ⟨_, if_neg hlen⟩
    · exact ⟨rest, rfl⟩

end PennCloud
