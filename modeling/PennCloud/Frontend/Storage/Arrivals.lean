import PennCloud.Frontend.Dispatch
import PennCloud.Frontend.Storage.Multipart

/-!
# How an upload arrives

The first piece of a request goes through a C string, and what was in it of the body is
put before the pieces that the service receives by itself. `PennCloud.Arrival.readWhole_iff`
says when the data come out as they were sent, and when nothing more is received once the
last boundary is there: there is no NUL in the first piece, the last boundary comes later,
and what is there of the data is not taken for something else.

The two calls of `recv` that matter are the first and the last one. The first one is made
whatever the first piece has brought. In a body that is taken for one in chunks
(`PennCloud.chunkRecvs`) the last one is too late whenever the data are right, because the
lines of the chunks take the place of bytes that should have been data.
-/

namespace PennCloud

open Wire Calls Text

/-! ### The calls -/

/-- The calls of `recvLine`, by what is still to come: one for each character, and one more
when no line ends. -/
def lineRecvs (stream : Bytes) : List Bytes :=
  if (cut crlf stream).isSome then stream.tails.take (recvLine stream).1.length else stream.tails

/-- The calls of `readChunks`. When the data of a chunk arrive in pieces there are more, all
of them before the next line. -/
def chunkRecvs : ℕ → Bytes → Bytes → List Bytes
  | 0, _, _ => []
  | rounds + 1, body, stream =>
    lineRecvs stream ++
      if (recvLine stream).1.length < 2 then []
      else
        match chunkHeader stream with
        | .error _ => []
        | .ok size =>
          if size = 0 then lineRecvs (recvLine stream).2
          else if maxVector < body.length + size then []
          else if (recvLine stream).2.length < size then [(recvLine stream).2, []]
          else (recvLine stream).2 :: (lineRecvs ((recvLine stream).2.drop size) ++
            chunkRecvs rounds (body ++ (recvLine stream).2.take size) (behindChunk size stream))

/-- The calls of `readUntil`. -/
def untilRecvs (finalMarker : Bytes) : Bytes → List Bytes → List Bytes
  | _, [] => [[]]
  | buf, tmp :: received =>
    (tmp :: received).flatten ::
      if (cut finalMarker (buf ++ tmp)).isSome then []
      else untilRecvs finalMarker (buf ++ tmp) received

/-- The calls when the body of an upload is received. -/
def bodyRecvs (received : List Bytes) (request boundary body : Bytes) : List Bytes :=
  if found "Transfer-Encoding: chunked" request then
    chunkRecvs (received.flatten.length + 1) [] received.flatten
  else untilRecvs (crlf ++ boundary ++ ascii "--") body received

section Calls

variable {finalMarker buf stream : Bytes} {received : List Bytes}

theorem mem_lineRecvs (stream : Bytes) : stream ∈ lineRecvs stream := by
  have htails : ∃ more, stream.tails = stream :: more := by
    rcases stream with _ | ⟨x, s⟩
    · exact ⟨[], rfl⟩
    · exact ⟨s.tails, List.tails_cons x s⟩
  obtain ⟨more, htails⟩ := htails
  rw [lineRecvs, htails]
  split_ifs with hline
  · obtain ⟨⟨line, rest⟩, hcut⟩ := Option.isSome_iff_exists.mp hline
    have hlen : (recvLine stream).1.length = line.length + 1 + 1 := by
      rw [recvLine, hcut]
      simp [crlf]
    rw [hlen, List.take_succ_cons]
    exact List.mem_cons_self
  · exact List.mem_cons_self

/-- **The first call is made in any case.** -/
theorem mem_bodyRecvs (received : List Bytes) (request boundary body : Bytes) :
    received.flatten ∈ bodyRecvs received request boundary body := by
  rw [bodyRecvs]
  split_ifs
  · rw [chunkRecvs]
    exact List.mem_append_left _ (mem_lineRecvs _)
  · rcases received with _ | ⟨tmp, received⟩
    · exact List.mem_cons_self
    · exact List.mem_cons_self

/-- What the loop of `readMultipartBody` has received in the end. -/
theorem exists_readUntil (finalMarker buf : Bytes) (received : List Bytes) :
    ∃ got rest, got ++ rest = received.flatten ∧ readUntil finalMarker buf received = buf ++ got ∧
      (finalMarker <:+: buf ++ got ∨ rest = []) := by
  induction received generalizing buf with
  | nil => exact ⟨[], [], rfl, (List.append_nil buf).symm, Or.inr rfl⟩
  | cons tmp received ih =>
    rw [readUntil]
    split_ifs with hfound
    · exact ⟨tmp, received.flatten, rfl, rfl, Or.inl (isSome_cut.mp hfound)⟩
    · obtain ⟨got, rest, hall, hread, hend⟩ := ih (buf ++ tmp)
      refine ⟨tmp ++ got, rest, ?_, ?_, ?_⟩
      · rw [List.append_assoc, hall, List.flatten_cons]
      · rw [hread, List.append_assoc]
      · rwa [← List.append_assoc]

/-- **All calls but the first** are made without the marker. -/
theorem exists_of_mem_untilRecvs {rest : Bytes} (h : rest ∈ untilRecvs finalMarker buf received) :
    ∃ got, got ++ rest = received.flatten ∧ (got = [] ∨ ¬ finalMarker <:+: buf ++ got) := by
  induction received generalizing buf with
  | nil =>
    obtain rfl := List.mem_singleton.mp h
    exact ⟨[], rfl, Or.inl rfl⟩
  | cons tmp received ih =>
    rw [untilRecvs, List.mem_cons] at h
    rcases h with rfl | h
    · exact ⟨[], rfl, Or.inl rfl⟩
    · split_ifs at h with hfound
      · exact absurd h List.not_mem_nil
      · obtain ⟨got, hall, hgot⟩ := ih h
        refine ⟨tmp ++ got, by rw [List.append_assoc, hall, List.flatten_cons], Or.inr ?_⟩
        rw [← List.append_assoc]
        rcases hgot with rfl | hgot
        · rwa [List.append_nil, ← isSome_cut]
        · exact hgot

theorem recvLine_ends (stream : Bytes) :
    (recvLine stream).2 = [] ∨ crlf <:+ (recvLine stream).1 := by
  rw [recvLine]
  rcases cut crlf stream with _ | ⟨line, rest⟩
  · exact Or.inl rfl
  · exact Or.inr (List.suffix_append line crlf)

/-- The line of a chunk with a size has a digit. -/
theorem three_le_of_chunkHeader {size : ℕ} (h : chunkHeader stream = .ok size) :
    3 ≤ (recvLine stream).1.length := by
  by_contra hlen
  rw [chunkHeader, show (recvLine stream).1.length - 2 = 0 by omega, List.take_zero] at h
  have hnone : stoulHex [] = .error .invalidArgument := by decide
  exact absurd (hnone.symm.trans h) (by simp)

/-- **The last line of a body in chunks**: when it is asked for, more bytes have been
received than there are in the body. -/
theorem exists_of_readChunks {rounds : ℕ} {body raw left : Bytes}
    (h : readChunks rounds body stream = .ok (raw, left)) :
    ∃ got rest, got ++ rest = stream ∧ rest ∈ chunkRecvs rounds body stream ∧
      raw.length + 3 ≤ body.length + got.length ∧ (rest = [] ∨ crlf <:+ got) := by
  induction rounds generalizing body stream with
  | zero => exact absurd h (by simp [readChunks])
  | succ rounds ih =>
    rw [readChunks] at h
    rw [chunkRecvs]
    split_ifs at h ⊢ with hline
    rcases hsize : chunkHeader stream with e | size
    · rw [hsize] at h
      exact absurd h (by simp)
    rw [hsize] at h
    have hthree := three_le_of_chunkHeader hsize
    have hlines := length_recvLine stream
    dsimp only at h ⊢
    split_ifs at h with hzero hwrap hfits hall
    · -- the last chunk
      obtain ⟨rfl, -⟩ := Prod.mk.inj (Except.ok.inj h)
      refine ⟨(recvLine stream).1, (recvLine stream).2, recvLine_append stream, ?_, by omega,
        recvLine_ends stream⟩
      rw [if_pos hzero]
      exact List.mem_append_right _ (mem_lineRecvs _)
    · obtain ⟨got, rest, hgot, hmem, hlen, hend⟩ := ih h
      refine ⟨(recvLine stream).1 ++ ((recvLine stream).2.take size ++
        ((recvLine ((recvLine stream).2.drop size)).1 ++ got)), rest, ?_, ?_, ?_, ?_⟩
      · rw [List.append_assoc, List.append_assoc, List.append_assoc, hgot, behindChunk,
          recvLine_append, List.take_append_drop, recvLine_append]
      · rw [if_neg hzero, if_neg hfits, if_neg hall]
        exact List.mem_append_right _ (List.mem_cons_of_mem _ (List.mem_append_right _ hmem))
      · simp only [List.length_append, List.length_take] at hlen ⊢
        omega
      · refine hend.imp_right fun hend => ?_
        rw [← List.append_assoc, ← List.append_assoc]
        exact hend.trans (List.suffix_append _ got)

end Calls

/-! ### Uploads and their pieces -/

/-- **A request for an upload**: its headers are text, and no line of the file begins with
the boundary. -/
structure FileUpload where
  /-- What separates the parts. -/
  boundary : Bytes
  /-- The headers of the request. -/
  head : Bytes
  /-- The folder, if there is a part for it. -/
  folder : Option Bytes
  /-- The name of the file. -/
  filename : Bytes
  /-- Its type. -/
  type : Bytes
  /-- Its data. -/
  content : Bytes
  head_ok : IsUploadHead boundary head ∧ 0 ∉ head
  boundary_ok : 0 ∉ boundary ∧ 13 ∉ boundary ∧ 34 ∉ boundary
  folder_ok : ∀ p ∈ folder, IsFolderPath p
  name_ok : isValidName filename = true
  type_ok : 0 ∉ type ∧ 13 ∉ type
  content_ok : ¬ crlf ++ delimiter boundary <:+: crlf ++ content

namespace FileUpload

variable (r : FileUpload)

/-- The request. -/
def request : Bytes :=
  multipartRequest r.head (multipartBody r.boundary r.folder r.filename r.type r.content)

/-- The headers of the parts, and what stands between them. -/
def parts : Bytes :=
  r.folder.elim [] (folderPart r.boundary) ++
    (delimiter r.boundary ++ (crlf ++ fileHeaders r.filename r.type))

/-- All headers, of the request and of the parts. -/
def headers : Bytes := multipartRequest r.head r.parts

/-- The last boundary. -/
def marker : Bytes := crlf ++ delimiter r.boundary ++ ascii "--"

theorem request_eq :
    r.request = r.headers ++ (crlf ++ crlf ++ (r.content ++ (r.marker ++ crlf))) := by
  simp [request, headers, parts, marker, multipartRequest, multipartBody, filePart, closing]

/-- The last boundary has one carriage return, at its beginning. -/
theorem marker_eq : ∃ w, w = 10 :: (delimiter r.boundary ++ ascii "--") ∧ r.marker = 13 :: w ∧
    13 ∉ w := by
  refine ⟨_, rfl, by simp [marker, crlf], ?_⟩
  have hten : (13 : UInt8) ≠ 10 := by decide
  rw [List.mem_cons, List.mem_append]
  exact fun h => h.elim hten fun h =>
    h.elim (notMem_delimiter (by decide) r.boundary_ok.2.1) (by decide)

/-- The last boundary is where it was put, unless the headers already contain it. -/
theorem firstBehind_marker (h : ¬ r.marker <:+: r.headers) :
    FirstBehind r.marker (r.headers ++ (crlf ++ crlf ++ r.content)) := by
  obtain ⟨w, hw, hmarker, htail⟩ := r.marker_eq
  have hcontent : ¬ 13 :: w <:+: 13 :: 10 :: r.content := fun hin => by
    rw [← hmarker] at hin
    exact r.content_ok ((List.prefix_append _ (ascii "--")).isInfix.trans hin)
  have hshort : ∀ {s : Bytes}, s.length ≤ w.length → ¬ 13 :: w <:+: s := fun hs hin => by
    have hlen := hin.length_le
    rw [List.length_cons] at hlen
    omega
  have hsplit : r.headers ++ (crlf ++ crlf ++ r.content) ++ (13 :: w).dropLast =
      r.headers ++ 13 :: (10 :: 13 :: (10 :: r.content ++ 13 :: w.dropLast)) := by
    rw [List.dropLast_cons_of_ne_nil (by rw [hw]; simp)]
    simp [crlf]
  rw [hmarker] at h ⊢
  rw [FirstBehind, hsplit]
  intro hin
  -- the marker does not go across any of the carriage returns
  rcases infix_append_first htail hin with hin | hin
  · exact h hin
  rcases @infix_append_first _ w [13, 10] _ _ htail hin with hin | hin
  · exact hshort (by rw [hw, delimiter_eq]; simp) hin
  rcases @infix_append_first _ w (13 :: 10 :: r.content) _ _ htail hin with hin | hin
  · exact hcontent hin
  · exact hshort (by rw [hw]; simp) hin

theorem notMem_headers : 0 ∉ r.headers := by
  have hname : 0 ∉ r.filename := notMem_of_isValidName' r.name_ok (by decide) (by decide)
  have hdelimiter := notMem_delimiter (c := 0) (by decide) r.boundary_ok.1
  have hfolder : 0 ∉ r.folder.elim [] (folderPart r.boundary) := by
    rcases hp : r.folder with _ | p
    · exact List.not_mem_nil
    · have hp0 : 0 ∉ p :=
        notMem_of_isFolderPath (r.folder_ok p hp) (by decide) (by decide) (by decide)
      simp only [Option.elim_some, folderPart, List.mem_append, not_or]
      exact ⟨hdelimiter, by decide, by decide, ⟨by decide, by decide⟩, hp0, by decide⟩
  simp only [headers, multipartRequest, parts, fileHeaders, List.mem_append, List.mem_cons, not_or]
  exact ⟨r.head_ok.2, ⟨by decide, by decide⟩, hfolder, hdelimiter, by decide, by decide, hname,
    by decide, by decide, by decide, by decide, r.type_ok.1⟩

/-- There is a NUL only in the data. -/
theorem count_request : r.request.count 0 = r.content.count 0 := by
  have hdelimiter := notMem_delimiter (c := 0) (by decide) r.boundary_ok.1
  have hmarker : 0 ∉ r.marker := by
    simp only [marker, List.mem_append, not_or]
    exact ⟨⟨by decide, hdelimiter⟩, by decide⟩
  rw [request_eq, List.count_append, List.count_append, List.count_append, List.count_append,
    List.count_append, List.count_eq_zero_of_not_mem r.notMem_headers,
    List.count_eq_zero_of_not_mem hmarker, List.count_eq_zero_of_not_mem (by decide)]
  omega

end FileUpload

/-- **The results of `recv` that a request arrives in**, with all headers in the first. -/
structure Arrival (r : FileUpload) where
  /-- What `client_connection` receives. -/
  first : Bytes
  /-- What the service receives. -/
  later : List Bytes
  all : first ++ later.flatten = r.request
  headers : r.headers <+: first
  first_fits : first.length ≤ bufferSize - 1
  later_ok : ∀ piece ∈ later, piece ≠ [] ∧ piece.length ≤ 65536

/-- The field for the folder is named, and behind the next blank line a line ends that is not
empty. -/
def NamesFolder (s : Bytes) : Prop :=
  ∃ front rest part value line more, cut folderField s = some (front, rest) ∧
    cut (crlf ++ crlf) rest = some (part, value) ∧ cut crlf value = some (line, more) ∧ line ≠ []

theorem namesFolder_iff {s : Bytes} :
    NamesFolder s ↔ parseMultipartFieldStorage s "folder" ≠ [] := by
  constructor
  · rintro ⟨front, rest, part, value, line, more, hname, hblank, hline, hne⟩
    rw [parseField_of_cuts hname hblank, hline]
    exact hne
  · intro h
    rcases hname : cut folderField s with _ | ⟨front, rest⟩
    · exact absurd (parseField_of_none hname) h
    rcases hblank : cut (crlf ++ crlf) rest with _ | ⟨part, value⟩
    · exact absurd (parseField_of_noBlank hname hblank) h
    rw [parseField_of_cuts hname hblank] at h
    rcases hline : cut crlf value with _ | ⟨line, more⟩
    · rw [hline] at h
      exact absurd rfl h
    · rw [hline] at h
      exact ⟨front, rest, part, value, line, more, hname, hblank, hline, h⟩

/-! ### Data that begin too late -/

section Late

variable {b front content part x : Bytes}

/-- A blank line that is followed by the data once more: then a line of the data begins with
the boundary. -/
theorem infix_of_repeated (hb : 13 ∉ b) (hx : x <+: crlf)
    (h : content ++ (crlf ++ (delimiter b ++ (ascii "--" ++ x))) =
      part ++ (crlf ++ crlf ++ content)) (hlen : content.length < part.length + 4) :
    crlf ++ delimiter b <:+: crlf ++ content := by
  have hw : 13 ∉ delimiter b ++ ascii "--" := fun hmem =>
    (List.mem_append.mp hmem).elim (notMem_delimiter (by decide) hb) (by decide)
  have hxone : x.count 13 ≤ 1 := (hx.sublist.count_le 13).trans (by decide)
  rw [← List.append_assoc part, ← List.append_assoc (delimiter b)] at h
  rcases List.append_eq_append_iff.mp h with ⟨z, hz, hy⟩ | ⟨z, hz, -⟩
  · -- what follows the data on the left is the end of the blank line on the right
    rw [show ∀ t : Bytes, crlf ++ t = 13 :: 10 :: t from fun _ => rfl] at hy
    rcases z with _ | ⟨c, _ | ⟨d, z⟩⟩
    · have hcount := congrArg List.length hz
      simp [crlf] at hcount
      omega
    · obtain ⟨rfl, -⟩ := List.cons.inj hy
      have hlast := congrArg List.getLast? hz
      simp [crlf] at hlast
    · obtain ⟨rfl, hy'⟩ := List.cons.inj hy
      obtain ⟨rfl, hrest⟩ := List.cons.inj hy'
      have hcount : part.count 13 + 2 = content.count 13 + (z.count 13 + 1) := by
        have hcounts := congrArg (List.count 13) hz
        rw [List.count_append, List.count_append, List.count_append, List.count_cons_self,
          List.count_cons_of_ne (by decide), show crlf.count 13 = 1 by decide] at hcounts
        exact hcounts
      have hcount' : x.count 13 = z.count 13 + content.count 13 := by
        have hcounts := congrArg (List.count 13) hrest
        rw [List.append_eq, List.count_append, List.count_eq_zero_of_not_mem hw,
          List.count_append] at hcounts
        omega
      by_cases hmem : 13 ∈ z
      · -- then the blank line is the first on both sides
        have hpos := List.count_pos_iff.mpr hmem
        have hcontent : 13 ∉ content := List.count_eq_zero.mp (by omega)
        have hpart : 13 ∉ part := List.count_eq_zero.mp (by omega)
        obtain ⟨-, hblank⟩ := append_inj_of_notMem hpart hcontent (by simp [crlf]) (by simp) hz
        obtain rfl : [13, 10] = z := (List.cons.inj (List.cons.inj hblank).2).2
        exact absurd (List.cons.inj hrest).1 (by decide)
      · have hlast := congrArg (afterLast 13) hz
        rw [show part ++ (crlf ++ crlf) = part ++ crlf ++ 13 :: [10] by simp [crlf],
          afterLast_append _ (by decide), afterLast_append _ (by
            rw [List.mem_cons]
            exact fun h => h.elim (by decide) hmem)] at hlast
        obtain rfl : [] = z := (List.cons.inj hlast).2
        rw [List.append_eq, List.nil_append] at hrest
        rw [← hrest, List.append_assoc, ← List.append_assoc]
        exact (List.prefix_append _ _).isInfix
  · have hcount := congrArg List.length hz
    simp [crlf] at hcount
    omega

/-- The data are not those that begin a blank line later. -/
theorem extractData_late (hb : 13 ∉ b) (hx : x <+: crlf) (hfront : FirstBehind (crlf ++ crlf) front)
    (hquiet : ¬ crlf ++ delimiter b <:+: crlf ++ content) {start : ℕ}
    (hstart : dataStart true (front ++ (crlf ++ crlf ++
      (content ++ (crlf ++ (delimiter b ++ (ascii "--" ++ x)))))) = some start) :
    extractData (delimiter b) (front ++ (crlf ++ crlf ++
      (content ++ (crlf ++ (delimiter b ++ (ascii "--" ++ x)))))) start ≠ .ok content := by
  have hxlen : x.length ≤ 2 := hx.length_le
  have hend := dataEnd_last hb hxlen (front ++ (crlf ++ crlf ++ content)) start
  have hassoc : front ++ (crlf ++ crlf ++ content) ++ (crlf ++ (delimiter b ++ (ascii "--" ++ x))) =
      front ++ (crlf ++ crlf ++ (content ++ (crlf ++ (delimiter b ++ (ascii "--" ++ x))))) := by
    simp
  rw [hassoc] at hend
  rw [dataStart, cut_of_firstBehind hfront, Option.map_some, if_pos rfl,
    Option.some.injEq] at hstart
  intro hextract
  rw [extractData, hend] at hextract
  obtain ⟨y, hy⟩ : ∃ y, y = crlf ++ (delimiter b ++ (ascii "--" ++ x)) := ⟨_, rfl⟩
  have hylen : 6 ≤ y.length := by
    rw [hy, delimiter_eq]
    simp [crlf, ascii]
    omega
  rw [← hy] at hextract hstart
  have hraw : (front ++ (crlf ++ crlf ++ (content ++ y))).length =
      front.length + (4 + (content.length + y.length)) := by
    simp [crlf]
    omega
  have hbefore : (front ++ (crlf ++ crlf ++ content)).length =
      front.length + (4 + content.length) := by
    simp [crlf]
    omega
  rw [hraw, hbefore] at hextract
  by_cases hlate : front.length + (4 + content.length) < start
  · -- behind the last boundary the data are what is left
    rw [if_pos hlate] at hextract
    split_ifs at hextract
    have hdata := Except.ok.inj hextract
    rw [← hraw, List.take_of_length_le (by simp)] at hdata
    rcases hblank : cut (crlf ++ crlf) (content ++ y) with _ | ⟨part, q⟩
    · rw [hblank] at hstart
      have hlen := congrArg List.length hdata
      rw [List.length_drop, hraw] at hlen
      dsimp only at hstart
      omega
    · rw [hblank] at hstart
      have hcut := eq_append_of_cut hblank
      have hq : (front ++ (crlf ++ crlf ++ (content ++ y))).drop start = q := by
        rw [hcut, ← hstart]
        have hskip : front ++ (crlf ++ crlf ++ (part ++ (crlf ++ crlf) ++ q)) =
            front ++ (crlf ++ crlf) ++ part ++ (crlf ++ crlf) ++ q := by simp
        rw [hskip]
        refine List.drop_left' ?_
        simp [crlf]
        omega
      rw [hq] at hdata
      have hlen := congrArg List.length hcut
      rw [hdata, hy, List.append_assoc part] at hcut
      refine hquiet (infix_of_repeated hb hx hcut ?_)
      dsimp only at hstart
      omega
  · rw [if_neg hlate, if_neg hlate] at hextract
    have hlen := congrArg List.length (Except.ok.inj hextract)
    rw [List.length_take] at hlen
    have hfour : front.length + 4 < start := by
      rw [← hstart]
      rcases cut (crlf ++ crlf) (content ++ y) with _ | ⟨part, q⟩
      · exact Nat.lt_of_lt_of_le (by omega : front.length + 4 < front.length + 7) le_rfl
      · dsimp only
        omega
    omega

theorem four_le_of_dataStart {hasFolder : Bool} {raw : Bytes} {start : ℕ}
    (h : dataStart hasFolder raw = some start) : 4 ≤ start := by
  rw [dataStart, Option.map_eq_some_iff] at h
  obtain ⟨r, -, rfl⟩ := h
  split_ifs
  · split <;> omega
  · omega

theorem exists_of_extractData {boundary raw data : Bytes} {start : ℕ}
    (h : extractData boundary raw start = .ok data) :
    data <:+: raw ∧ start + data.length ≤ raw.length := by
  have hstart : start ≤ raw.length := isOk_extractData.mp (by rw [h]; rfl)
  rw [extractData] at h
  split_ifs at h
  obtain rfl := Except.ok.inj h
  refine ⟨((List.take_prefix _ _).isInfix).trans (List.drop_suffix _ _).isInfix, ?_⟩
  rw [List.length_take, List.length_drop]
  omega

end Late

namespace Arrival

variable {r : FileUpload} (a : Arrival r)

/-- What the service takes for the body. -/
def body : Bytes := r.parts ++ textOf (a.first.drop r.headers.length)

/-- Whether there is a folder, as the service sees it. -/
def hasFolder : Bool := decide (parseMultipartFieldStorage (textOf a.first) "folder" ≠ [])

theorem first_eq : a.first = r.headers ++ a.first.drop r.headers.length :=
  List.prefix_iff_eq_append.mp a.headers |>.symm

theorem drop_append : a.first.drop r.headers.length ++ a.later.flatten =
    crlf ++ crlf ++ (r.content ++ (r.marker ++ crlf)) := by
  have hall := a.all
  rw [r.request_eq, a.first_eq, List.append_assoc] at hall
  exact List.append_cancel_left hall

theorem textOf_first : textOf a.first = multipartRequest r.head a.body := by
  have hpos : ∀ x ∈ r.headers, (x != 0) = true := fun x hx =>
    bne_iff_ne.mpr fun heq => r.notMem_headers (heq ▸ hx)
  conv_lhs => rw [a.first_eq]
  rw [textOf, List.takeWhile_append_of_pos hpos]
  simp [FileUpload.headers, multipartRequest, body, textOf]

theorem extractBoundary_first : extractBoundary (textOf a.first) = delimiter r.boundary := by
  rw [textOf_first]
  exact extractBoundary_request r.head_ok.1 r.boundary_ok.2.1 _

/-- The calls of `recv` that the service makes when it reads the body. -/
def recvs : List Bytes :=
  (cut (crlf ++ crlf) (textOf a.first)).elim [] fun c =>
    bodyRecvs a.later (textOf a.first) (extractBoundary (textOf a.first)) c.2

theorem recvs_eq : a.recvs = bodyRecvs a.later (textOf a.first) (delimiter r.boundary) a.body := by
  rw [recvs, extractBoundary_first]
  conv_lhs => rw [textOf_first, cut_request r.head_ok.1]
  rw [textOf_first]
  rfl

/-- **The upload does not depend on how it arrives**: the data are those that were sent, and
nothing is received once the last boundary is there. -/
structure ReadWhole : Prop where
  data : ∃ u, uploadParams a.later (textOf a.first) = .ok (.found u) ∧ u.fileData = r.content
  enough : ∀ rest ∈ a.recvs, ∀ got, got ++ rest = a.later.flatten → ¬ r.marker <:+: a.first ++ got

/-- The data are read when the name is valid. -/
theorem data_iff : (∃ u, uploadParams a.later (textOf a.first) = .ok (.found u) ∧
      u.fileData = r.content) ↔
    (∃ part, namePart (textOf a.first) (delimiter r.boundary) a.body a.hasFolder = .ok part ∧
      isValidName (uploadName part) = true) ∧
    uploadData a.later (textOf a.first) (delimiter r.boundary) a.body a.hasFolder =
      .ok (.found r.content) := by
  have hparams : uploadParams a.later (textOf a.first) =
      uploadFile a.later (textOf a.first) a.body [] := by
    rw [textOf_first]
    exact uploadParams_request r.head_ok.1 r.boundary_ok.2.1 _ _
  obtain ⟨part, hpart, hfile⟩ := uploadFile_eq a.later (textOf a.first) a.body
  rw [extractBoundary_first] at hpart hfile
  rw [← hasFolder] at hpart hfile
  rw [hparams, hfile, hpart]
  constructor
  · rintro ⟨u, hu, hdata⟩
    split_ifs at hu with hname
    · exact absurd (Except.ok.inj hu) (by simp)
    refine ⟨⟨part, rfl, Bool.eq_true_of_not_eq_false hname⟩, ?_⟩
    rcases hread : uploadData a.later (textOf a.first) (delimiter r.boundary) a.body
        a.hasFolder with e | (page | data)
    · rw [hread] at hu
      exact absurd hu (by simp [Except.map])
    · rw [hread] at hu
      exact absurd hu (by simp [Except.map, Parsed.map])
    · rw [hread] at hu
      obtain rfl := Parsed.found.inj (Except.ok.inj hu)
      rw [show data = r.content from hdata]
  · rintro ⟨⟨part', hpart', hname⟩, hread⟩
    obtain rfl := Except.ok.inj hpart'
    rw [if_neg (by rw [hname]; decide), hread]
    exact ⟨_, rfl, rfl⟩

/-- What is received, unless the body is taken for one in chunks. -/
theorem exists_rawBody (hchunks : found "Transfer-Encoding: chunked" (textOf a.first) = false) :
    ∃ got rest, got ++ rest = a.later.flatten ∧
      rawBody a.later (textOf a.first) (delimiter r.boundary) a.body = .ok (a.body ++ got) ∧
      (r.marker <:+: a.body ++ got ∨ rest = []) := by
  obtain ⟨got, rest, hall, hread, hend⟩ := exists_readUntil r.marker a.body a.later
  refine ⟨got, rest, hall, ?_, hend⟩
  rw [rawBody, if_neg (by rw [hchunks]; decide)]
  exact congrArg Except.ok hread

/-- What comes late enough has the last boundary in it. -/
theorem marker_arrived {got rest : Bytes} (hall : got ++ rest = a.later.flatten)
    (hlen : r.content.length + 7 ≤ got.length) (hend : rest = [] ∨ crlf <:+ got) :
    r.marker <:+: a.first ++ got := by
  have hsuffix : a.first.drop r.headers.length ++ got <:+: a.first ++ got := by
    conv_rhs => rw [a.first_eq, List.append_assoc]
    exact (List.suffix_append _ _).isInfix
  refine List.IsInfix.trans ?_ hsuffix
  have hdrop := a.drop_append
  rw [← hall] at hdrop
  rcases hend with rfl | ⟨v, rfl⟩
  · rw [List.append_nil] at hdrop
    rw [hdrop]
    exact ⟨crlf ++ crlf ++ r.content, crlf, by simp⟩
  · -- the line end is not the one before the boundary, so it is the one behind it
    obtain ⟨w, -, hmarker, hnot⟩ := r.marker_eq
    obtain ⟨u, hu⟩ : ∃ u, u = a.first.drop r.headers.length ++ v := ⟨_, rfl⟩
    have htext : u ++ 13 :: (10 :: rest) =
        crlf ++ crlf ++ r.content ++ [13] ++ w ++ 13 :: [10] := by
      rw [hu]
      simpa [hmarker, crlf] using hdrop
    have hpre : crlf ++ crlf ++ r.content ++ [13] <+: u := by
      refine List.prefix_of_prefix_length_le ?_ ⟨13 :: 10 :: rest, htext⟩ ?_
      · rw [List.append_assoc _ w]
        exact List.prefix_append _ _
      · rw [hu]
        simp [crlf] at hlen ⊢
        omega
    obtain ⟨z, rfl⟩ := hpre
    rw [List.append_assoc _ z, List.append_assoc _ w] at htext
    have hz : w <+: z := by
      rcases List.append_eq_append_iff.mp (List.append_cancel_left htext) with
        ⟨q, hq, hrest⟩ | ⟨q, hq, -⟩
      · rcases q with _ | ⟨c, q⟩
        · rw [hq, List.append_nil]
        · obtain ⟨rfl, -⟩ := List.cons.inj hrest
          exact absurd (hq ▸ List.mem_append_right z List.mem_cons_self) hnot
      · exact ⟨q, hq.symm⟩
    obtain ⟨q, rfl⟩ := hz
    rw [← List.append_assoc, ← hu, hmarker]
    exact ⟨crlf ++ crlf ++ r.content, q ++ crlf, by simp⟩

/-- **A body that is taken for one in chunks** is not read as it was sent, or read too far. -/
theorem not_chunks (h : a.ReadWhole) :
    found "Transfer-Encoding: chunked" (textOf a.first) = false := by
  by_contra hchunks
  rw [Bool.not_eq_false] at hchunks
  have hraw : rawBody a.later (textOf a.first) (delimiter r.boundary) a.body =
      (readChunkedBodyRaw a.later.flatten).map Prod.fst := by
    rw [rawBody, if_pos hchunks]
  have hread := (a.data_iff.mp h.data).2
  rcases hstream : readChunkedBodyRaw a.later.flatten with e | ⟨raw, left⟩
  · rw [hstream] at hraw
    rw [uploadData, hraw] at hread
    exact absurd hread (by simp [Except.map, bind, Except.bind])
  · rw [hstream] at hraw
    have hraw' : rawBody a.later (textOf a.first) (delimiter r.boundary) a.body = .ok raw := hraw
    obtain ⟨start, hstart, hextract⟩ := (uploadData_eq_iff hraw').mp hread
    have hfour := four_le_of_dataStart hstart
    have hlen := (exists_of_extractData hextract).2
    obtain ⟨got, rest, hall, hmem, hgot, hend⟩ := exists_of_readChunks hstream
    rw [List.length_nil] at hgot
    have hrecv : rest ∈ a.recvs := by
      rw [recvs_eq, bodyRecvs, if_pos hchunks]
      exact hmem
    exact h.enough rest hrecv got hall (a.marker_arrived hall (by omega) hend)

/-- **A NUL in the first piece** is missed in the data. -/
theorem notMem_first (h : a.ReadWhole) : 0 ∉ a.first := by
  obtain ⟨got, rest, hall, hraw, -⟩ := a.exists_rawBody (a.not_chunks h)
  obtain ⟨start, -, hextract⟩ := (uploadData_eq_iff hraw).mp (a.data_iff.mp h.data).2
  have hwithin := (exists_of_extractData hextract).1.sublist.count_le 0
  have hbody : 0 ∉ a.body := by
    rw [body, List.mem_append]
    refine not_or.mpr ⟨fun hmem => r.notMem_headers ?_, fun hmem => ?_⟩
    · exact List.mem_append_right _ (List.mem_append_right _ hmem)
    · exact absurd (List.mem_takeWhile_imp hmem) (by decide)
  have hcount := congrArg (List.count 0) a.all
  rw [r.count_request, List.count_append, ← hall, List.count_append] at hcount
  rw [List.count_append, List.count_eq_zero_of_not_mem hbody] at hwithin
  exact List.count_eq_zero.mp (by omega)

/-! #### The first piece without a NUL -/

section Text

variable (hnul : 0 ∉ a.first)
include hnul

theorem body_eq : a.body = r.parts ++ a.first.drop r.headers.length := by
  rw [body, textOf_of_notMem fun hmem => hnul (List.mem_of_mem_drop hmem)]

theorem first_eq_request : a.first = multipartRequest r.head a.body := by
  rw [← textOf_first, textOf_of_notMem hnul]

/-- Until the last boundary is complete, all that comes is read. -/
theorem exists_rawBody_eq (hchunks : found "Transfer-Encoding: chunked" (textOf a.first) = false)
    (hmarker : ¬ r.marker <:+: a.first) :
    ∃ x, x <+: crlf ∧ rawBody a.later (textOf a.first) (delimiter r.boundary) a.body =
      .ok (r.parts ++ (crlf ++ crlf ++
        (r.content ++ (crlf ++ (delimiter r.boundary ++ (ascii "--" ++ x)))))) := by
  obtain ⟨got, rest, hall, hraw, hend⟩ := a.exists_rawBody hchunks
  have hwhole : a.body ++ got ++ rest =
      r.parts ++ (crlf ++ crlf ++ r.content) ++ (r.marker ++ crlf) := by
    have hdrop := a.drop_append
    rw [← hall] at hdrop
    rw [a.body_eq hnul, List.append_assoc, List.append_assoc, hdrop]
    simp
  have hfirst : FirstBehind r.marker (r.parts ++ (crlf ++ crlf ++ r.content)) := by
    have hbehind := r.firstBehind_marker fun hin => hmarker (hin.trans a.headers.isInfix)
    rw [FileUpload.headers, multipartRequest, List.append_assoc, List.append_assoc] at hbehind
    exact hbehind.of_append.of_append
  have hin : r.marker <:+: a.body ++ got := by
    rcases hend with hin | rfl
    · exact hin
    · rw [List.append_nil] at hwhole
      rw [hwhole]
      exact ⟨_, crlf, List.append_assoc _ _ _⟩
  obtain ⟨x, hx⟩ := hfirst.prefix_of_occurs hin ⟨rest, hwhole⟩
  refine ⟨x, ⟨rest, ?_⟩, ?_⟩
  · rw [← hx, List.append_assoc, ← List.append_assoc _ r.marker] at hwhole
    exact List.append_cancel_left hwhole
  · rw [hraw, ← hx]
    simp [FileUpload.marker]

/-- **The data are right when the folder is**: then they begin behind the right blank line. -/
theorem uploadData_iff (hchunks : found "Transfer-Encoding: chunked" (textOf a.first) = false)
    (hmarker : ¬ r.marker <:+: a.first) :
    uploadData a.later (textOf a.first) (delimiter r.boundary) a.body a.hasFolder =
      .ok (.found r.content) ↔ (a.hasFolder = true ↔ r.folder ≠ none) := by
  obtain ⟨x, hx, hraw⟩ := a.exists_rawBody_eq hnul hchunks hmarker
  have hb := r.boundary_ok.2.1
  have hdelimiter := notMem_delimiter (c := 13) (by decide) hb
  have hheaders := firstBehind_fileHeaders hdelimiter r.name_ok r.type_ok.2
  rw [uploadData_eq_iff hraw, FileUpload.parts]
  rcases hfolder : r.folder with _ | p
  · rw [Option.elim_none, List.nil_append]
    cases hhas : a.hasFolder with
    | false => exact iff_of_true (extractData_first hb hx.length_le hheaders) (by simp)
    | true =>
      refine iff_of_false ?_ (by simp)
      rintro ⟨start, hstart, hextract⟩
      exact extractData_late hb hx hheaders r.content_ok hstart hextract
  · have hp : 13 ∉ p :=
      notMem_of_isFolderPath (r.folder_ok p hfolder) (by decide) (by decide) (by decide)
    have hfront := firstBehind_folderHeaders hb
    have hmiddle := FirstBehind.line hp (by simp [delimiter_eq]) (by simp [delimiter_eq]) hheaders
    cases hhas : a.hasFolder with
    | true =>
      refine iff_of_true ?_ (by simp)
      have hdata := @extractData_second _ r.content _ _ x hb hx.length_le hfront hmiddle
      simpa only [folderPart, Option.elim_some, List.append_assoc] using hdata
    | false =>
      refine iff_of_false ?_ (by simp)
      have hne := @extractData_first_ne r.boundary r.content _ (p ++ (crlf ++
        (delimiter r.boundary ++ (crlf ++ fileHeaders r.filename r.type))) ++
          (crlf ++ crlf ++ r.content)) x hb hx.length_le hfront (behindFolder_ne p _)
      simpa only [folderPart, Option.elim_some, List.append_assoc] using hne

/-- The name that is found: with a part for the folder, the first one behind the boundary. -/
theorem namePart_iff (hhas : a.hasFolder = true ↔ r.folder ≠ none) :
    (∃ part, namePart (textOf a.first) (delimiter r.boundary) a.body a.hasFolder = .ok part ∧
        isValidName (uploadName part) = true) ↔
      (r.folder ≠ none → ∀ before part, cut (delimiter r.boundary) a.first = some (before, part) →
        isValidName (uploadName part) = true) := by
  rcases hfolder : r.folder with _ | p
  · have hfalse : a.hasFolder = false := Bool.eq_false_iff.mpr fun h => hhas.mp h hfolder
    have hdelimiter : ¬ filenameField <:+: delimiter r.boundary :=
      not_infix_of_notMem (c := 34) (by decide) (notMem_delimiter (by decide) r.boundary_ok.2.2)
    obtain ⟨front, hcut⟩ := @cut_filename _ r.filename r.type hdelimiter
      (a.first.drop r.headers.length)
    have hbody : a.body = delimiter r.boundary ++ (crlf ++
        (fileHeaders r.filename r.type ++ a.first.drop r.headers.length)) := by
      rw [a.body_eq hnul, FileUpload.parts, hfolder, Option.elim_none]
      simp
    refine iff_of_true ⟨a.body, ?_, ?_⟩ fun h => absurd rfl h
    · rw [namePart, hfalse]
      rfl
    · rw [hbody, uploadName_of_cut r.name_ok hcut]
      exact r.name_ok
  · have htrue : a.hasFolder = true := hhas.mpr (by rw [hfolder]; simp)
    have hin : delimiter r.boundary <:+: a.first := by
      refine List.IsInfix.trans ?_ a.headers.isInfix
      rw [FileUpload.headers, multipartRequest, FileUpload.parts]
      exact ⟨r.head ++ (crlf ++ crlf ++ r.folder.elim [] (folderPart r.boundary)),
        crlf ++ fileHeaders r.filename r.type, by simp⟩
    obtain ⟨⟨before, part⟩, hcut⟩ := Option.isSome_iff_exists.mp (isSome_cut.mpr hin)
    rw [namePart, htrue, if_pos rfl, textOf_of_notMem hnul, hcut]
    simp

end Text

/-- **An arrival that does not disturb the upload.** -/
structure Undisturbed : Prop where
  /-- There is no NUL in the first piece. -/
  noNul : 0 ∉ a.first
  /-- The last boundary is not complete in it. -/
  incomplete : ¬ r.marker <:+: a.first
  /-- What is there of the data does not say that they come in chunks. -/
  notChunks : ¬ ascii "Transfer-Encoding: chunked" <:+: a.first
  /-- A folder is named if there is a part for it. -/
  folder : NamesFolder a.first ↔ r.folder ≠ none
  /-- Then the first name behind the boundary is a valid one. -/
  name : r.folder ≠ none → ∀ before part, cut (delimiter r.boundary) a.first = some (before, part) →
    isValidName (uploadName part) = true

/-- **When an upload does not depend on how it arrives**: exactly when the first piece does not
disturb it. -/
theorem readWhole_iff : a.ReadWhole ↔ a.Undisturbed := by
  have hhas : 0 ∉ a.first → (NamesFolder a.first ↔ a.hasFolder = true) := fun hnul => by
    rw [namesFolder_iff, hasFolder, textOf_of_notMem hnul, decide_eq_true_eq]
  constructor
  · intro h
    have hnul := a.notMem_first h
    have hchunks := a.not_chunks h
    have hincomplete : ¬ r.marker <:+: a.first := by
      have hrecv : a.later.flatten ∈ a.recvs := by
        rw [recvs_eq]
        exact mem_bodyRecvs _ _ _ _
      have hfirst := h.enough _ hrecv [] rfl
      rwa [List.append_nil] at hfirst
    obtain ⟨hname, hdata⟩ := a.data_iff.mp h.data
    have hfolder := (a.uploadData_iff hnul hchunks hincomplete).mp hdata
    rw [textOf_of_notMem hnul] at hchunks
    refine ⟨hnul, hincomplete, fun hin => ?_, (hhas hnul).trans hfolder,
      (a.namePart_iff hnul hfolder).mp hname⟩
    exact absurd (found_iff.mpr hin) (by rw [hchunks]; decide)
  · intro h
    have hfolder := (hhas h.noNul).symm.trans h.folder
    have hchunks : found "Transfer-Encoding: chunked" (textOf a.first) = false := by
      rw [textOf_of_notMem h.noNul]
      exact Bool.eq_false_iff.mpr fun hin => h.notChunks (found_iff.mp hin)
    refine ⟨a.data_iff.mpr ⟨(a.namePart_iff h.noNul hfolder).mpr h.name,
      (a.uploadData_iff h.noNul hchunks h.incomplete).mpr hfolder⟩,
      fun rest hrest got hall hin => ?_⟩
    rw [recvs_eq, bodyRecvs, if_neg (by rw [hchunks]; decide)] at hrest
    obtain ⟨got', hall', hgot⟩ := exists_of_mem_untilRecvs hrest
    obtain rfl := List.append_cancel_right (hall.trans hall'.symm)
    rcases hgot with rfl | hgot
    · rw [List.append_nil] at hin
      exact h.incomplete hin
    · -- the last boundary is behind all headers, so in the body
      have hfirst := r.firstBehind_marker fun hin => h.incomplete (hin.trans a.headers.isInfix)
      have hpre : a.first ++ got <+: r.headers ++ (crlf ++ crlf ++ r.content) ++
          (r.marker ++ crlf) := ⟨rest, by rw [List.append_assoc, hall, a.all, r.request_eq]; simp⟩
      have hall := hfirst.prefix_of_occurs hin hpre
      rw [a.first_eq_request h.noNul, FileUpload.headers, multipartRequest,
        multipartRequest] at hall
      simp only [List.append_assoc, List.prefix_append_right_inj] at hall
      refine hgot (List.IsInfix.trans ?_ hall.isInfix)
      rw [FileUpload.marker]
      exact ⟨r.parts ++ (crlf ++ (crlf ++ r.content)), [], by simp⟩

end Arrival

/-- A file `t`, without a part for the folder. -/
def plainUpload (content : Bytes) (h : ¬ crlf ++ delimiter (ascii "xy") <:+: crlf ++ content) :
    FileUpload where
  boundary := ascii "xy"
  head := uploadHead
  folder := none
  filename := ascii "t"
  type := ascii "text/plain"
  content := content
  head_ok := ⟨isUploadHead_uploadHead, by decide +kernel⟩
  boundary_ok := by decide
  folder_ok := fun _ h => nomatch h
  name_ok := by decide
  type_ok := by decide
  content_ok := h

/-- A file of two letters. -/
def letters : FileUpload := plainUpload (ascii "hi") (by decide)

/-- A file with a NUL between two letters. -/
def withNul : FileUpload := plainUpload [97, 0, 98] (by decide)

/-- The last boundary comes by itself. -/
def lettersInTwo : Arrival letters where
  first := letters.headers ++ (crlf ++ crlf ++ letters.content)
  later := [letters.marker ++ crlf]
  all := by decide +kernel
  headers := List.prefix_append _ _
  first_fits := by decide +kernel
  later_ok := by decide

/-- So does the one behind the NUL. -/
def withNulInTwo : Arrival withNul where
  first := withNul.headers ++ (crlf ++ crlf ++ withNul.content)
  later := [withNul.marker ++ crlf]
  all := by decide +kernel
  headers := List.prefix_append _ _
  first_fits := by decide +kernel
  later_ok := by decide

/-- All comes at once. -/
def lettersAtOnce : Arrival letters where
  first := letters.request
  later := []
  all := List.append_nil _
  headers := ⟨crlf ++ crlf ++ (letters.content ++ (letters.marker ++ crlf)),
    letters.request_eq.symm⟩
  first_fits := by decide +kernel
  later_ok := by decide

/-- The two letters are read, when the last boundary comes by itself. -/
theorem lettersInTwo_readWhole : lettersInTwo.ReadWhole := by
  refine (Arrival.readWhole_iff lettersInTwo).mpr ⟨by decide +kernel, by decide +kernel,
    by decide +kernel, ?_, fun h => absurd rfl h⟩
  refine iff_of_false (fun h => namesFolder_iff.mp h ?_) fun h => h rfl
  decide +kernel

/-- **What is behind a NUL is lost**, and of a request that comes at once the service waits for
more. -/
theorem readWhole_fails :
    uploadParams withNulInTwo.later (textOf withNulInTwo.first) =
      .ok (.found ⟨[], ascii "t", ascii "a"⟩) ∧ ¬ withNulInTwo.ReadWhole ∧
    uploadParams lettersAtOnce.later (textOf lettersAtOnce.first) =
      .ok (.found ⟨[], ascii "t", ascii "hi"⟩) ∧ lettersAtOnce.recvs = [[]] ∧
    ¬ lettersAtOnce.ReadWhole := by
  have hdata : uploadParams withNulInTwo.later (textOf withNulInTwo.first) =
      .ok (.found ⟨[], ascii "t", ascii "a"⟩) := by decide +kernel
  have hrecvs : lettersAtOnce.recvs = [[]] := by decide +kernel
  refine ⟨hdata, fun h => ?_, by decide +kernel, hrecvs, fun h => ?_⟩
  · obtain ⟨u, hu, hcontent⟩ := h.data
    rw [hdata] at hu
    rw [← Parsed.found.inj (Except.ok.inj hu)] at hcontent
    exact absurd hcontent (by decide)
  · refine h.enough [] (by rw [hrecvs]; exact List.mem_cons_self) [] rfl ?_
    rw [List.append_nil]
    exact ⟨letters.headers ++ (crlf ++ crlf ++ letters.content), crlf, by decide +kernel⟩

end PennCloud
