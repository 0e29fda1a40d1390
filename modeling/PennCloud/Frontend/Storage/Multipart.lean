import PennCloud.Frontend.Storage.Forms
import PennCloud.Frontend.Storage.Names

/-!
# The parts of an upload

A browser sends the form for an upload in parts: the folder, unless it is the root, and
the file. `PennCloud.multipartBody` is how it writes them, and
`PennCloud.uploadParams_multipart_iff` says when the service reads out of them what was
put in.

The service looks for each thing with a search of its own, over the whole text. The name
of the folder's field is also found within `filename="folder"` and in the data of the
file (`PennCloud.QuietFolder`), and the name of the file also in the headers
(`PennCloud.QuietName`).
-/

namespace PennCloud

open Wire Calls Text

/-! ### How an upload is written -/

section Encoding

variable (b : Bytes)

/-- The name of the folder's field. -/
def folderField : Bytes := ascii "name=\"folder\""

/-- What the name of a file follows. -/
def filenameField : Bytes := ascii "filename=\""

/-- The line between two parts. -/
def delimiter : Bytes := ascii "--" ++ b

/-- The part for the folder. -/
def folderPart (folder : Bytes) : Bytes :=
  delimiter b ++ (crlf ++ (ascii "Content-Disposition: form-data; name=\"folder\"" ++
    (crlf ++ crlf ++ (folder ++ crlf))))

/-- The headers of the part for the file. -/
def fileHeaders (filename type : Bytes) : Bytes :=
  ascii "Content-Disposition: form-data; name=\"file\"; filename=\"" ++ (filename ++
    34 :: (crlf ++ (ascii "Content-Type:" ++ 32 :: type)))

/-- The last boundary. -/
def closing : Bytes := crlf ++ (delimiter b ++ (ascii "--" ++ crlf))

/-- The part for the file, and the end. -/
def filePart (filename type content : Bytes) : Bytes :=
  delimiter b ++ (crlf ++ (fileHeaders filename type ++ (crlf ++ crlf ++ (content ++ closing b))))

/-- The body of an upload, with or without a part for the folder. -/
def multipartBody (folder : Option Bytes) (filename type content : Bytes) : Bytes :=
  folder.elim [] (folderPart b) ++ filePart b filename type content

/-- **The head of an upload**: its first line has no query, there is no blank line in it,
and it says what the boundary is. -/
structure IsUploadHead (head : Bytes) : Prop where
  /-- There is no question mark in the first line. -/
  noQuery : 63 ∉ requestLine (head ++ crlf)
  /-- The first blank line is the one behind it. -/
  noBlank : FirstBehind (crlf ++ crlf) head
  /-- The boundary stands in the header for the type of the content. -/
  boundary : ∃ before after, cut (ascii "Content-Type: multipart/form-data;") head =
    some (before, ascii " boundary=" ++ (b ++ after)) ∧ (after = [] ∨ crlf <+: after)

end Encoding

/-- The request. -/
def multipartRequest (head body : Bytes) : Bytes := head ++ (crlf ++ crlf ++ body)

/-! ### Lines -/

/-- The text has no line before its first line end, or no line at all. -/
def StartsBlank (s : Bytes) : Prop := s = [] ∨ crlf <+: s

/-- The first line of a text that ends with a line. -/
theorem firstLine_eq_nil_iff {s t : Bytes} :
    ((cut crlf (s ++ (crlf ++ t))).map Prod.fst).getD [] = [] ↔ StartsBlank s := by
  rcases s with _ | ⟨x, s⟩
  · rw [List.nil_append, cut_at_start (List.prefix_append crlf t)]
    exact iff_of_true rfl (Or.inl rfl)
  · have hsome : (cut crlf (x :: s ++ (crlf ++ t))).isSome = true :=
      isSome_cut.mpr ⟨x :: s, t, by rw [List.append_assoc]⟩
    obtain ⟨⟨p, q⟩, hcut⟩ := Option.isSome_iff_exists.mp hsome
    have heq := eq_append_of_cut hcut
    rw [hcut]
    constructor
    · intro hp
      obtain rfl : p = [] := hp
      rcases s with _ | ⟨y, s⟩
      · -- a line feed would follow a carriage return that is the line feed
        have h13 := (List.cons.inj (List.cons.inj heq).2).1
        exact absurd h13 (by decide)
      · obtain ⟨rfl, hrest⟩ := List.cons.inj heq
        obtain ⟨rfl, -⟩ := List.cons.inj hrest
        exact Or.inr ⟨s, rfl⟩
    · rintro (h | h)
      · exact absurd h (List.cons_ne_nil x s)
      · rw [cut_at_start (h.trans (List.prefix_append _ _))] at hcut
        exact (Prod.mk.inj (Option.some.inj hcut)).1.symm

/-- A line is followed by others, the first of which is not empty. -/
theorem FirstBehind.line {line s : Bytes} (hline : 13 ∉ line) (hs : s.head? ≠ some 13)
    (hne : s ≠ []) (h : FirstBehind (crlf ++ crlf) s) :
    FirstBehind (crlf ++ crlf) (line ++ (crlf ++ s)) := by
  obtain ⟨x, s, rfl⟩ := List.exists_cons_of_ne_nil hne
  have hx : x ≠ 13 := fun heq => hs (congrArg some heq)
  have hlast : FirstBehind (crlf ++ crlf) (crlf ++ x :: s) := by
    refine FirstBehind.cons (fun hpre => ?_) (FirstBehind.cons (fun hpre => ?_) h)
    · have hrest := (List.cons_prefix_cons.mp (List.cons_prefix_cons.mp hpre).2).2
      exact hx (List.cons_prefix_cons.mp hrest).1.symm
    · exact absurd (List.cons_prefix_cons.mp hpre).1 (by decide)
  rw [FirstBehind, List.append_assoc]
  exact fun hw => hlast (infix_of_append hline hw)

/-! ### The steps of the reader -/

section Steps

variable {received : List Bytes} {request body boundary raw : Bytes}

theorem delimiter_eq (b : Bytes) : delimiter b = 45 :: 45 :: b := rfl

theorem notMem_delimiter {b : Bytes} {c : UInt8} (hc : c ≠ 45) (hb : c ∉ b) : c ∉ delimiter b := by
  rw [delimiter_eq, List.mem_cons, List.mem_cons]
  exact fun h => h.elim hc fun h => h.elim hc hb

/-- The last boundary, also when not all of the line end behind it is there. -/
theorem dataEnd_last {b x : Bytes} (hb : 13 ∉ b) (hx : x.length ≤ 2) (front : Bytes) (start : ℕ) :
    dataEnd (delimiter b) (front ++ (crlf ++ (delimiter b ++ (ascii "--" ++ x)))) start =
      if front.length < start then (front ++ (crlf ++ (delimiter b ++ (ascii "--" ++ x)))).length
      else front.length := by
  have hq : ¬ crlf ++ delimiter b <:+: (crlf ++ delimiter b).tail ++ (ascii "--" ++ x) := by
    intro h
    have htail : 13 ∉ (crlf ++ delimiter b).tail := by
      have hten : (13 : UInt8) ≠ 10 := by decide
      exact fun h => (List.mem_cons.mp h).elim hten (notMem_delimiter (by decide) hb)
    have hlen := (infix_of_append (by decide) (infix_of_append htail h)).length_le
    simp [delimiter_eq] at hlen
    omega
  have hcut := cutLast_of_not_infix hq front
  rw [List.append_assoc] at hcut
  rw [dataEnd, hcut]

/-- The data are what stands before the last boundary. -/
theorem extractData_last {b x : Bytes} (hb : 13 ∉ b) (hx : x.length ≤ 2) (front data : Bytes) :
    extractData (delimiter b) (front ++ (data ++ (crlf ++ (delimiter b ++ (ascii "--" ++ x)))))
      front.length = .ok data := by
  have hend := dataEnd_last hb hx (front ++ data) front.length
  rw [List.append_assoc, if_neg (by simp)] at hend
  rw [extractData, hend, if_neg (by simp), List.drop_left, List.length_append,
    Nat.add_sub_cancel_left, List.take_left]

theorem uploadData_eq_iff {hasFolder : Bool} {content : Bytes}
    (hraw : rawBody received request boundary body = .ok raw) :
    uploadData received request boundary body hasFolder = .ok (.found content) ↔
      ∃ start, dataStart hasFolder raw = some start ∧
        extractData boundary raw start = .ok content := by
  have hdata : uploadData received request boundary body hasFolder =
      (dataStart hasFolder raw).elim
        (.ok (.refused (ascii "<html><body>Malformed multipart body.</body></html>")))
        fun start => (extractData boundary raw start).map Parsed.found := by
    rw [uploadData, hraw]
    rcases hstart : dataStart hasFolder raw with _ | start
    · simp only [bind, Except.bind, hstart]
      rfl
    · simp only [bind, Except.bind, hstart, Option.elim_some]
      rcases extractData boundary raw start with e | data <;> rfl
  rw [hdata]
  rcases dataStart hasFolder raw with _ | start
  · simp
  · rcases hextract : extractData boundary raw start with e | data
    · simp [Except.map, hextract]
    · simp [Except.map, hextract]

/-- A reader refuses a name, or reads the data. -/
theorem uploadFile_eq (received : List Bytes) (request body : Bytes) :
    ∃ part, namePart request (extractBoundary request) body
        (decide (parseMultipartFieldStorage request "folder" ≠ [])) = .ok part ∧
      uploadFile received request body [] =
        if isValidName (uploadName part) = false then
          .ok (.refused
            (ascii "<html><body>Missing file name or incorrect format of filename.</body></html>"))
        else (uploadData received request (extractBoundary request) body
          (decide (parseMultipartFieldStorage request "folder" ≠ []))).map fun data =>
            data.map fun fileData =>
              ⟨parseMultipartFieldStorage request "folder", uploadName part, fileData⟩ := by
  have hfolder : partFolder [] request = parseMultipartFieldStorage request "folder" := rfl
  obtain ⟨part, hpart⟩ := namePart_ok request body
    (decide (parseMultipartFieldStorage request "folder" ≠ []))
  refine ⟨part, hpart, ?_⟩
  rw [uploadFile, hfolder, hpart]
  rfl

/-- **What a reader finds**: the folder, the name and the data, one by one. -/
theorem uploadFile_eq_iff {folder filename content : Bytes}
    (hraw : rawBody received request (extractBoundary request) body = .ok raw)
    (hname : isValidName filename = true) :
    uploadFile received request body [] = .ok (.found ⟨folder, filename, content⟩) ↔
      parseMultipartFieldStorage request "folder" = folder ∧
      (∃ part, namePart request (extractBoundary request) body (decide (folder ≠ [])) = .ok part ∧
        uploadName part = filename) ∧
      ∃ start, dataStart (decide (folder ≠ [])) raw = some start ∧
        extractData (extractBoundary request) raw start = .ok content := by
  obtain ⟨part, hpart, hfile⟩ := uploadFile_eq received request body
  rw [hfile]
  constructor
  · intro h
    split_ifs at h with hvalid
    · exact absurd (Except.ok.inj h) (by simp)
    rcases hdata : uploadData received request (extractBoundary request) body
        (decide (parseMultipartFieldStorage request "folder" ≠ [])) with e | (page | data)
    · rw [hdata] at h
      exact absurd h (by simp [Except.map])
    · rw [hdata] at h
      exact absurd h (by simp [Except.map, Parsed.map])
    · rw [hdata] at h
      obtain ⟨rfl, rfl, rfl⟩ := Upload.mk.inj (Parsed.found.inj (Except.ok.inj h))
      exact ⟨rfl, ⟨part, hpart, rfl⟩, (uploadData_eq_iff hraw).mp hdata⟩
  · rintro ⟨rfl, ⟨part', hpart', rfl⟩, hdata⟩
    obtain rfl := Except.ok.inj (hpart.symm.trans hpart')
    rw [if_neg (by rw [hname]; decide), (uploadData_eq_iff hraw).mpr hdata]
    rfl

end Steps

/-! ### The head -/

section Head

variable {b head : Bytes}

theorem cut_request (h : IsUploadHead b head) (body : Bytes) :
    cut (crlf ++ crlf) (multipartRequest head body) = some (head, body) :=
  cut_of_firstBehind h.noBlank body

theorem extractBoundary_request (h : IsUploadHead b head) (hb : 13 ∉ b) (body : Bytes) :
    extractBoundary (multipartRequest head body) = delimiter b := by
  obtain ⟨before, after, hcut, hafter⟩ := h.boundary
  have hword : cut (ascii "boundary=") (ascii " boundary=" ++ (b ++ after) ++
      (crlf ++ crlf ++ body)) = some ([32], b ++ after ++ (crlf ++ crlf ++ body)) := by
    have hblank : ascii " boundary=" ++ (b ++ after) ++ (crlf ++ crlf ++ body) =
        [32] ++ (ascii "boundary=" ++ (b ++ after ++ (crlf ++ crlf ++ body))) := by
      rw [List.append_assoc]
      rfl
    rw [hblank]
    exact cut_of_firstBehind (by decide) _
  have hline : cut crlf (b ++ after ++ (crlf ++ crlf ++ body)) =
      (cut crlf (after ++ (crlf ++ crlf ++ body))).map fun r => (b ++ r.1, r.2) := by
    rw [List.append_assoc]
    exact cut_append_of_notMem hb _
  have hend : crlf <+: after ++ (crlf ++ crlf ++ body) := by
    rcases hafter with rfl | hafter
    · exact ⟨crlf ++ body, by simp⟩
    · exact hafter.trans (List.prefix_append _ _)
  rw [extractBoundary, multipartRequest, cut_append hcut]
  dsimp only
  rw [hword]
  dsimp only
  rw [hline, cut_at_start hend]
  simp [delimiter]

/-- The first line has no query. -/
theorem storageParams_request (h : IsUploadHead b head) (body : Bytes) :
    storageParams (multipartRequest head body) = .ok [] := by
  have hline : requestLine (multipartRequest head body) = requestLine (head ++ crlf) := by
    have hsome : (cut crlf (head ++ crlf)).isSome = true :=
      isSome_cut.mpr ⟨head, [], List.append_nil _⟩
    obtain ⟨⟨line, rest⟩, hcut⟩ := Option.isSome_iff_exists.mp hsome
    have hassoc : multipartRequest head body = head ++ crlf ++ (crlf ++ body) := by
      simp [multipartRequest]
    rw [requestLine, requestLine, hassoc, cut_append hcut, hcut]
    rfl
  have hquery : cut (ascii "?") (requestLine (multipartRequest head body)) = none := by
    rw [← Option.not_isSome_iff_eq_none, isSome_cut, hline]
    exact not_infix_of_notMem (by decide) h.noQuery
  rw [storageParams, lineQuery, hquery]
  rfl

/-- What is left to do for a request with such a head. -/
theorem uploadParams_request (h : IsUploadHead b head) (hb : 13 ∉ b) (received : List Bytes)
    (body : Bytes) : uploadParams received (multipartRequest head body) =
      uploadFile received (multipartRequest head body) body [] := by
  have hne : delimiter b ≠ [] := List.cons_ne_nil _ _
  rw [uploadParams, storageParams_request h, extractBoundary_request h hb, cut_request h]
  simp only [hne, if_false]
  rfl

end Head

/-! ### The folder -/

section Folder

variable {b head s t rest : Bytes}

theorem parseField_of_cuts {front part value : Bytes}
    (hname : cut folderField s = some (front, rest))
    (hblank : cut (crlf ++ crlf) rest = some (part, value)) :
    parseMultipartFieldStorage s "folder" = ((cut crlf value).map Prod.fst).getD [] := by
  rw [parseMultipartFieldStorage, show ascii ("name=\"" ++ "folder" ++ "\"") = folderField from rfl,
    hname]
  dsimp only
  rw [hblank]

theorem parseField_of_none (hname : cut folderField s = none) :
    parseMultipartFieldStorage s "folder" = [] := by
  rw [parseMultipartFieldStorage, show ascii ("name=\"" ++ "folder" ++ "\"") = folderField from rfl,
    hname]

theorem parseField_of_noBlank {front : Bytes} (hname : cut folderField s = some (front, rest))
    (hblank : cut (crlf ++ crlf) rest = none) : parseMultipartFieldStorage s "folder" = [] := by
  rw [parseMultipartFieldStorage, show ascii ("name=\"" ++ "folder" ++ "\"") = folderField from rfl,
    hname]
  dsimp only
  rw [hblank]

/-- What does not name the field is passed over. -/
theorem parseField_append
    (h : cut folderField (s ++ t) = (cut folderField t).map fun r => (s ++ r.1, r.2)) :
    parseMultipartFieldStorage (s ++ t) "folder" = parseMultipartFieldStorage t "folder" := by
  rcases hname : cut folderField t with _ | ⟨front, rest⟩
  · rw [hname] at h
    rw [parseField_of_none h, parseField_of_none hname]
  · rw [hname] at h
    rcases hblank : cut (crlf ++ crlf) rest with _ | ⟨part, value⟩
    · rw [parseField_of_noBlank h hblank, parseField_of_noBlank hname hblank]
    · rw [parseField_of_cuts h hblank, parseField_of_cuts hname hblank]

/-- The field is not named across the end of a line. -/
theorem parseField_append_line (hs : ¬ folderField <:+: s) :
    parseMultipartFieldStorage (s ++ (crlf ++ t)) "folder" =
      parseMultipartFieldStorage t "folder" := by
  have hskip : parseMultipartFieldStorage (crlf ++ t) "folder" =
      parseMultipartFieldStorage t "folder" :=
    parseField_append (cut_append_of_notMem (by decide) t)
  rw [← hskip]
  exact parseField_append (cut_append_cons hs (by decide) (10 :: t))

/-- **A field that the headers name** has the boundary for its value. -/
theorem parseField_of_head (h : IsUploadHead b head) (hb : 13 ∉ b) (hhead : folderField <:+: head)
    (more : Bytes) :
    parseMultipartFieldStorage (multipartRequest head (delimiter b ++ (crlf ++ more))) "folder" =
      delimiter b := by
  obtain ⟨⟨front, rest⟩, hcut⟩ := Option.isSome_iff_exists.mp (isSome_cut.mpr hhead)
  have hblank : FirstBehind (crlf ++ crlf) rest := by
    have hfirst := h.noBlank
    rw [eq_append_of_cut hcut] at hfirst
    exact hfirst.of_append
  have hline : cut crlf (delimiter b ++ (crlf ++ more)) = some (delimiter b, more) :=
    cut_of_firstBehind (firstBehind_of_notMem (notMem_delimiter (by decide) hb)) more
  rw [multipartRequest, parseField_of_cuts (cut_append hcut _) (cut_of_firstBehind hblank _), hline]
  rfl

/-- A field that only the body names. -/
theorem parseField_of_body (hhead : ¬ folderField <:+: head) (hb : 34 ∉ b) (more : Bytes) :
    parseMultipartFieldStorage (multipartRequest head (delimiter b ++ (crlf ++ more))) "folder" =
      parseMultipartFieldStorage more "folder" := by
  have hdelimiter : ¬ folderField <:+: delimiter b :=
    not_infix_of_notMem (c := 34) (by decide) (notMem_delimiter (by decide) hb)
  have hempty : ¬ folderField <:+: ([] : Bytes) := by decide
  have hassoc : multipartRequest head (delimiter b ++ (crlf ++ more)) =
      head ++ (crlf ++ ([] ++ (crlf ++ (delimiter b ++ (crlf ++ more))))) := by
    simp [multipartRequest]
  rw [hassoc, parseField_append_line hhead, parseField_append_line hempty,
    parseField_append_line hdelimiter]

/-- The value of the field in its own part. -/
theorem parseField_folderPart {folder : Bytes} (hfolder : 13 ∉ folder) (more : Bytes) :
    parseMultipartFieldStorage (ascii "Content-Disposition: form-data; name=\"folder\"" ++
      (crlf ++ crlf ++ (folder ++ (crlf ++ more)))) "folder" = folder := by
  have hname : cut folderField (ascii "Content-Disposition: form-data; " ++
      (folderField ++ (crlf ++ crlf ++ (folder ++ (crlf ++ more))))) =
        some (ascii "Content-Disposition: form-data; ",
          crlf ++ crlf ++ (folder ++ (crlf ++ more))) :=
    cut_of_firstBehind (by decide) _
  have hblank : cut (crlf ++ crlf) (crlf ++ crlf ++ (folder ++ (crlf ++ more))) =
      some ([], folder ++ (crlf ++ more)) :=
    cut_of_firstBehind (s := []) (by decide) _
  have hline : cut crlf (folder ++ (crlf ++ more)) = some (folder, more) :=
    cut_of_firstBehind (firstBehind_of_notMem hfolder) more
  have htext : ascii "Content-Disposition: form-data; name=\"folder\"" =
      ascii "Content-Disposition: form-data; " ++ folderField := by decide
  rw [htext, List.append_assoc, parseField_of_cuts hname hblank, hline]
  rfl

/-! #### The part for the file -/

/-- In the data of a file the field is not named with a value: behind the first such name
there is no blank line, also not at the end, or an empty one follows the first. -/
def QuietData (content : Bytes) : Prop :=
  ∀ front rest, cut folderField content = some (front, rest) →
    ¬ crlf ++ crlf <:+: rest ++ crlf ∨
      ∃ part value, cut (crlf ++ crlf) rest = some (part, value) ∧ StartsBlank value

/-- **In the part for a file the field is not named with a value.** A file with the name
`folder` names it. -/
def QuietFile (filename type content : Bytes) : Prop :=
  if filename = ascii "folder" ∨ folderField <:+: type then StartsBlank content
  else QuietData content

variable {filename type content : Bytes}

/-- What stands between two quotes in the first line of the part. -/
theorem eq_folder_of_named (hname : 34 ∉ filename)
    (h : folderField <:+: ascii "Content-Disposition: form-data; name=\"file\"; filename=\"" ++
      (filename ++ [34])) : filename = ascii "folder" := by
  obtain ⟨u, v, huv⟩ := h
  have hmem : ascii "folder" ∈
      (ascii "Content-Disposition: form-data; name=\"file\"; filename=\"" ++
      (filename ++ [34])).splitOn 34 := by
    have hquotes : u ++ folderField ++ v =
        u ++ ascii "name=" ++ 34 :: (ascii "folder" ++ 34 :: v) := by
      rw [show folderField = ascii "name=" ++ 34 :: (ascii "folder" ++ [34]) by decide]
      simp
    rw [← huv, hquotes, List.splitOn_append_cons_self, List.splitOn_append_cons_self,
      @List.splitOn_eq_singleton _ (ascii "folder") _ _ 34 (by decide)]
    simp
  have hpieces : (ascii "Content-Disposition: form-data; name=\"file\"; filename=\"" ++
      (filename ++ [34])).splitOn 34 =
        [ascii "Content-Disposition: form-data; name=", ascii "file", ascii "; filename=",
          filename, []] := by
    rw [show ascii "Content-Disposition: form-data; name=\"file\"; filename=\"" =
      ascii "Content-Disposition: form-data; name=" ++ 34 :: (ascii "file" ++
        34 :: (ascii "; filename=" ++ [34])) by decide]
    simp only [List.append_assoc, List.cons_append, List.nil_append,
      List.splitOn_append_cons_self, List.splitOn_eq_singleton hname]
    rfl
  rw [hpieces] at hmem
  simp only [List.mem_cons, List.not_mem_nil, or_false] at hmem
  rcases hmem with h | h | h | h | h
  · exact absurd h (by decide)
  · exact absurd h (by decide)
  · exact absurd h (by decide)
  · exact h.symm
  · exact absurd h (by decide)

/-- A blank line that is complete with the end of a line only is the last thing there. -/
theorem eq_append_crlf_of_infix (hs : ¬ crlf ++ crlf <:+: s) (h : crlf ++ crlf <:+: s ++ crlf) :
    ∃ p, s = p ++ crlf ∧ FirstBehind (crlf ++ crlf) p := by
  have hten : (10 : UInt8) ≠ 13 := by decide
  have hlast : ∀ t : Bytes, ¬ crlf ++ crlf <:+ t ++ [13] := by
    rintro t ⟨u, hu⟩
    have hends := congrArg List.getLast? hu
    simp [crlf] at hends
  have hsuffix : crlf ++ crlf <:+ s ++ crlf := by
    rw [show s ++ crlf = s ++ [13] ++ [10] by simp [crlf], List.infix_concat_iff] at h
    rcases h with h | h
    · simpa [crlf] using h
    · rw [List.infix_concat_iff] at h
      exact h.elim (fun h => absurd h (hlast s)) fun h => absurd h hs
  obtain ⟨p, hp⟩ := hsuffix
  rw [← List.append_assoc] at hp
  obtain rfl := List.append_cancel_right hp
  refine ⟨p, rfl, fun hw => ?_⟩
  rw [show (crlf ++ crlf).dropLast = crlf ++ [13] from rfl, ← List.append_assoc,
    List.infix_concat_iff] at hw
  exact hw.elim (hlast _) hs

/-- The data, when the headers do not name the field. -/
theorem parseField_content_iff (hb : 34 ∉ b) (hb' : 13 ∉ b) :
    parseMultipartFieldStorage (content ++ closing b) "folder" = [] ↔ QuietData content := by
  have hclosing : ¬ folderField <:+: delimiter b ++ (ascii "--" ++ crlf) := by
    refine not_infix_of_notMem (c := 34) (by decide) fun h => ?_
    exact (List.mem_append.mp h).elim (notMem_delimiter (by decide) hb) (by decide)
  rcases hcut : cut folderField content with _ | ⟨front, rest⟩
  · have hnot : ¬ folderField <:+: content := by
      rw [← isSome_cut, hcut]
      exact Bool.false_ne_true
    have hnone : cut folderField (delimiter b ++ (ascii "--" ++ crlf)) = none := by
      rwa [← Option.not_isSome_iff_eq_none, isSome_cut]
    rw [closing, parseField_append_line hnot, parseField_of_none hnone]
    exact iff_of_true rfl fun _ _ h => nomatch hcut.symm.trans h
  · have hquiet : QuietData content ↔ ¬ crlf ++ crlf <:+: rest ++ crlf ∨
        ∃ part value, cut (crlf ++ crlf) rest = some (part, value) ∧ StartsBlank value := by
      rw [QuietData, hcut]
      simp
    rw [hquiet]
    have hname := cut_append hcut (closing b)
    rcases hblank : cut (crlf ++ crlf) rest with _ | ⟨part, value⟩
    · have hrest : ¬ crlf ++ crlf <:+: rest := by
        rw [← isSome_cut, hblank]
        exact Bool.false_ne_true
      by_cases hend : crlf ++ crlf <:+: rest ++ crlf
      · -- the last boundary is the line behind the blank line
        obtain ⟨p, rfl, hp⟩ := eq_append_crlf_of_infix hrest hend
        have hcut' : cut (crlf ++ crlf) (p ++ crlf ++ closing b) =
            some (p, delimiter b ++ ascii "--" ++ (crlf ++ [])) := by
          have hassoc : p ++ crlf ++ closing b =
              p ++ (crlf ++ crlf ++ (delimiter b ++ ascii "--" ++ (crlf ++ []))) := by
            simp [closing]
          rw [hassoc]
          exact cut_of_firstBehind hp _
        rw [parseField_of_cuts hname hcut', firstLine_eq_nil_iff]
        refine iff_of_false (fun h => ?_) fun h => ?_
        · rcases h with h | h
          · exact absurd h (List.cons_ne_nil _ _)
          · exact absurd (List.cons_prefix_cons.mp h).1 (by decide)
        · rcases h with h | ⟨_, _, h, -⟩
          · exact h hend
          · exact nomatch h
      · have hnone : cut (crlf ++ crlf) (rest ++ closing b) = none := by
          rw [← Option.not_isSome_iff_eq_none, isSome_cut]
          intro h
          rw [show rest ++ closing b = rest ++ crlf ++ 45 :: (45 :: b ++ (ascii "--" ++ crlf)) by
            simp [closing, delimiter_eq]] at h
          rcases infix_append_cons (by decide) h with h | h
          · exact hend h
          · have hdashes : 13 ∉ delimiter b ++ ascii "--" := fun hmem =>
              (List.mem_append.mp hmem).elim (notMem_delimiter (by decide) hb') (by decide)
            have hin : crlf ++ crlf <:+: delimiter b ++ ascii "--" ++ crlf := by
              rw [delimiter_eq, List.append_assoc]
              exact h
            exact absurd (infix_of_append hdashes hin).length_le (by decide)
        rw [parseField_of_noBlank hname hnone]
        exact iff_of_true rfl (Or.inl hend)
    · rw [parseField_of_cuts hname (cut_append hblank (closing b)), closing, firstLine_eq_nil_iff]
      constructor
      · exact fun h => Or.inr ⟨part, value, rfl, h⟩
      · rintro (h | ⟨part', value', heq, h⟩)
        · refine absurd ?_ h
          have hin : crlf ++ crlf <:+: rest := isSome_cut.mp (by rw [hblank]; rfl)
          exact hin.trans (List.prefix_append rest crlf).isInfix
        · obtain ⟨rfl, rfl⟩ := Prod.mk.inj (Option.some.inj heq)
          exact h

theorem notMem_of_isValidName' {n : Bytes} (hn : isValidName n = true) {c : UInt8}
    (hc : isNameChar c = false) (hdot : c ≠ 46) : c ∉ n := by
  intro hmem
  rcases isValidName_char hn hmem with h | h
  · exact absurd (hc.symm.trans h) Bool.false_ne_true
  · exact hdot h

theorem notMem_of_isFolderPath {p : Bytes} (hp : IsFolderPath p) {c : UInt8}
    (hc : isNameChar c = false) (hdot : c ≠ 46) (hslash : c ≠ 47) : c ∉ p := by
  intro hmem
  rcases hp with rfl | hp
  · exact List.not_mem_nil hmem
  · rcases hp.isPathChar hmem with h | h | h
    · exact absurd (hc.symm.trans h) Bool.false_ne_true
    · exact hdot h
    · exact hslash h

/-- **What the reader takes for the folder** in the part for the file. -/
theorem parseField_file_iff (hb : 34 ∉ b) (hb' : 13 ∉ b) (hname : isValidName filename = true)
    (htype : 13 ∉ type) :
    parseMultipartFieldStorage (fileHeaders filename type ++
        (crlf ++ crlf ++ (content ++ closing b))) "folder" = [] ↔
      QuietFile filename type content := by
  have hquote : 34 ∉ filename := notMem_of_isValidName' hname (by decide) (by decide)
  have htail : 13 ∉ ascii "Content-Type:" ++ 32 :: type := fun h =>
    (List.mem_append.mp h).elim (by decide) fun h =>
      (List.mem_cons.mp h).elim (by decide) htype
  by_cases hfolder : filename = ascii "folder"
  · rw [QuietFile, if_pos (Or.inl hfolder)]
    have htext : fileHeaders filename type ++ (crlf ++ crlf ++ (content ++ closing b)) =
        ascii "Content-Disposition: form-data; name=\"file\"; file" ++ (folderField ++
          (crlf ++ (ascii "Content-Type:" ++ 32 :: type) ++
            (crlf ++ crlf ++ (content ++ closing b)))) := by
      have hfirst : ascii "Content-Disposition: form-data; name=\"file\"; filename=\"" ++
          (ascii "folder" ++ [34]) =
            ascii "Content-Disposition: form-data; name=\"file\"; file" ++ folderField := by decide
      rw [← List.append_assoc _ folderField, ← hfirst, fileHeaders, hfolder]
      simp
    have hfield : FirstBehind folderField
        (ascii "Content-Disposition: form-data; name=\"file\"; file") := by decide
    have hblank : FirstBehind (crlf ++ crlf) (crlf ++ (ascii "Content-Type:" ++ 32 :: type)) :=
      FirstBehind.line List.not_mem_nil (by simp [ascii]) (by simp [ascii])
        (firstBehind_of_notMem htail)
    rw [htext, parseField_of_cuts (cut_of_firstBehind hfield _) (cut_of_firstBehind hblank _),
      closing, firstLine_eq_nil_iff]
  · have hline : ¬ folderField <:+:
        ascii "Content-Disposition: form-data; name=\"file\"; filename=\"" ++ (filename ++ [34]) :=
      fun h => hfolder (eq_folder_of_named hquote h)
    have htext : fileHeaders filename type ++ (crlf ++ crlf ++ (content ++ closing b)) =
        ascii "Content-Disposition: form-data; name=\"file\"; filename=\"" ++ (filename ++ [34]) ++
          (crlf ++ (ascii "Content-Type:" ++ 32 :: (type ++
            (crlf ++ crlf ++ (content ++ closing b))))) := by
      simp [fileHeaders]
    have hword : parseMultipartFieldStorage (ascii "Content-Type:" ++ 32 :: (type ++
        (crlf ++ crlf ++ (content ++ closing b)))) "folder" =
          parseMultipartFieldStorage (type ++ (crlf ++ crlf ++ (content ++ closing b))) "folder" :=
      (parseField_append (cut_append_cons (by decide) (by decide) _)).trans
        (parseField_append (s := [32]) (cut_append_of_notMem (by decide) _))
    rw [htext, parseField_append_line hline, hword]
    by_cases hin : folderField <:+: type
    · rw [QuietFile, if_pos (Or.inr hin)]
      obtain ⟨⟨front, rest⟩, hcut⟩ := Option.isSome_iff_exists.mp (isSome_cut.mpr hin)
      have hrest : 13 ∉ rest := fun h => htype (by
        rw [eq_append_of_cut hcut]
        exact List.mem_append_right _ h)
      have hblank : FirstBehind (crlf ++ crlf) rest := firstBehind_of_notMem hrest
      rw [parseField_of_cuts (cut_append hcut _) (cut_of_firstBehind hblank _), closing,
        firstLine_eq_nil_iff]
    · rw [QuietFile, if_neg (not_or.mpr ⟨hfolder, hin⟩), List.append_assoc,
        parseField_append_line hin, ← parseField_content_iff hb hb']
      exact iff_of_eq (congrArg (· = []) (parseField_append_line (s := []) (by decide)))

end Folder

/-! ### The name -/

section Name

variable {b head s t filename type content : Bytes}

/-- What stands before a name: nothing, or folders. -/
def EndsFolder (dir : Bytes) : Prop := dir = [] ∨ ∃ d c, dir = d ++ [c] ∧ (c = 47 ∨ c = 92)

/-- **The name behind the first `filename="`**: what stands between the quotes, but for
folders before it. -/
theorem uploadName_eq_iff {text front rest : Bytes} (hname : isValidName filename = true)
    (hcut : cut filenameField text = some (front, rest)) : uploadName text = filename ↔
      ∃ dir, rest.takeWhile (fun x => x ≠ 34) = dir ++ filename ∧ EndsFolder dir := by
  have hslash : 47 ∉ filename := notMem_of_isValidName hname
  have hback : 92 ∉ filename := notMem_of_isValidName' hname (by decide) (by decide)
  have hchar : ∀ x ∈ filename, decide (x ≠ 47 ∧ x ≠ 92) = true := fun x hx =>
    decide_eq_true ⟨fun heq => hslash (heq ▸ hx), fun heq => hback (heq ▸ hx)⟩
  have hne := isValidName_ne_nil hname
  have hnone : cut (ascii "/") filename = none := by
    rw [← Option.not_isSome_iff_eq_none, isSome_cut]
    exact not_infix_of_notMem (by decide) hslash
  generalize hq : rest.takeWhile (fun x => decide (x ≠ 34)) = q
  have hparse : parseMultipartFilenameStorageHeader text =
      if q.rtakeWhile (fun x => x ≠ 47 ∧ x ≠ 92) = [] then q
      else q.rtakeWhile fun x => x ≠ 47 ∧ x ≠ 92 := by
    rw [parseMultipartFilenameStorageHeader, show ascii "filename=\"" = filenameField from rfl,
      hcut]
    dsimp only
    rw [hq]
  rw [uploadName, hparse]
  constructor
  · intro h
    split_ifs at h with hbase
    · -- the name would be the last one, and it would not end with a slash
      have hlast : filename <:+ q := by
        rcases hcut' : cut (ascii "/") q with _ | ⟨u, r⟩
        · rw [hcut'] at h
          exact ⟨[], h.symm⟩
        · rw [hcut'] at h
          obtain rfl : r = filename := h
          exact ⟨u ++ ascii "/", (eq_append_of_cut hcut').symm⟩
      obtain ⟨u, rfl⟩ := hlast
      have hend := List.rtakeWhile_eq_nil_iff.mp hbase (by simp [hne])
      rw [List.getLast_append_of_ne_nil _ hne] at hend
      exact absurd (hchar _ (List.getLast_mem hne)) hend
    · have hbase' : cut (ascii "/") (q.rtakeWhile fun x => x ≠ 47 ∧ x ≠ 92) = none := by
        rw [← Option.not_isSome_iff_eq_none, isSome_cut]
        refine not_infix_of_notMem (c := 47) (by decide) fun hmem => ?_
        exact absurd (List.mem_rtakeWhile_imp hmem) (by decide)
      rw [hbase'] at h
      refine ⟨q.rdropWhile fun x => x ≠ 47 ∧ x ≠ 92, ?_, ?_⟩
      · rw [← show q.rtakeWhile (fun x => x ≠ 47 ∧ x ≠ 92) = filename from h]
        exact (List.rdropWhile_append_rtakeWhile (p := fun x => decide (x ≠ 47 ∧ x ≠ 92))).symm
      · by_cases hdir : q.rdropWhile (fun x => decide (x ≠ 47 ∧ x ≠ 92)) = []
        · exact Or.inl hdir
        · have hend := List.rdropWhile_last_not _ _ hdir
          refine Or.inr ⟨_, _, (List.dropLast_append_getLast hdir).symm, ?_⟩
          simpa only [decide_eq_true_eq, not_and_or, not_not] using hend
  · rintro ⟨dir, rfl, hdir⟩
    have hbase : (dir ++ filename).rtakeWhile (fun x => x ≠ 47 ∧ x ≠ 92) = filename := by
      rcases hdir with rfl | ⟨d, c, rfl, hc⟩
      · exact List.rtakeWhile_eq_self_iff.mpr hchar
      · have htake : (c :: d.reverse).takeWhile (fun x => decide (x ≠ 47 ∧ x ≠ 92)) = [] :=
          List.takeWhile_cons_of_neg (by rcases hc with rfl | rfl <;> decide)
        rw [List.rtakeWhile, List.reverse_append, List.reverse_concat,
          List.takeWhile_append_of_pos fun x hx => hchar x (List.mem_reverse.mp hx),
          htake, List.append_nil, List.reverse_reverse]
    rw [hbase, if_neg hne, hnone]
    rfl

/-- No name of a file stands across the end of a line. -/
theorem not_infix_line (hs : ¬ filenameField <:+: s) (ht : ¬ filenameField <:+: t) :
    ¬ filenameField <:+: s ++ (crlf ++ t) := fun h =>
  (infix_append_cons (by decide) h).elim hs fun h => ht (infix_of_append (s := crlf) (by decide) h)

theorem firstBehind_line (hs : ¬ filenameField <:+: s) (ht : FirstBehind filenameField t) :
    FirstBehind filenameField (s ++ (crlf ++ t)) := by
  rw [FirstBehind, List.append_assoc, List.append_assoc]
  exact not_infix_line hs ht

/-- The name in the part for the file, behind some text. -/
theorem cut_filename (hs : ¬ filenameField <:+: s) (more : Bytes) :
    ∃ front, cut filenameField (s ++ (crlf ++ (fileHeaders filename type ++ more))) =
      some (front, filename ++ 34 :: (crlf ++ (ascii "Content-Type:" ++ 32 :: type) ++ more)) := by
  have hfirst : FirstBehind filenameField
      (ascii "Content-Disposition: form-data; name=\"file\"; ") :=
    by decide
  have htext : ascii "Content-Disposition: form-data; name=\"file\"; filename=\"" =
      ascii "Content-Disposition: form-data; name=\"file\"; " ++ filenameField := by decide
  refine ⟨_, Eq.trans ?_ (cut_of_firstBehind (firstBehind_line hs hfirst) _)⟩
  rw [fileHeaders, htext]
  simp

/-- **In the headers no other file is named**: behind the boundary, if it occurs there, the
name of the file is the first one, if there is one. -/
def QuietName (b head filename : Bytes) : Prop :=
  ∀ front rest, cut (delimiter b) head = some (front, rest) →
    ∀ before after, cut filenameField rest = some (before, after) →
      ∃ dir w, after = dir ++ (filename ++ 34 :: w) ∧ 34 ∉ dir ∧ EndsFolder dir

theorem takeWhile_quote {q w : Bytes} (hq : 34 ∉ q) :
    (q ++ 34 :: w).takeWhile (fun x => decide (x ≠ 34)) = q := by
  have hpos : ∀ x ∈ q, (decide (x ≠ 34)) = true := fun x hx =>
    decide_eq_true fun heq => hq (heq ▸ hx)
  rw [List.takeWhile_append_of_pos hpos, List.takeWhile_cons_of_neg (by decide), List.append_nil]

/-- What is read when the name stands first. -/
theorem uploadName_of_cut {text front w : Bytes} (hname : isValidName filename = true)
    (hcut : cut filenameField text = some (front, filename ++ 34 :: w)) :
    uploadName text = filename := by
  have hquote : 34 ∉ filename := notMem_of_isValidName' hname (by decide) (by decide)
  exact (uploadName_eq_iff hname hcut).mpr ⟨[], takeWhile_quote hquote, Or.inl rfl⟩

/-- A body with a part for the folder, up to the part for the file. -/
theorem exists_body {folder : Bytes} (hfolder : 34 ∉ folder) :
    ∃ t more, ¬ filenameField <:+: ascii "Content-Disposition: form-data; name=" ++ 34 :: t ∧
      folderPart b folder ++ filePart b filename type content =
        delimiter b ++ (crlf ++ (ascii "Content-Disposition: form-data; name=" ++ 34 :: t) ++
          (crlf ++ delimiter b) ++ (crlf ++ (fileHeaders filename type ++ more))) := by
  have hquote : ascii "Content-Disposition: form-data; name=\"folder\"" =
      ascii "Content-Disposition: form-data; name=" ++ 34 :: (ascii "folder" ++ [34]) := by decide
  refine ⟨ascii "folder" ++ [34] ++ (crlf ++ ([] ++ (crlf ++ folder))),
    crlf ++ crlf ++ (content ++ closing b), ?_, ?_⟩
  · have hin : ¬ filenameField <:+: folder := not_infix_of_notMem (c := 34) (by decide) hfolder
    have hline := @not_infix_line (ascii "Content-Disposition: form-data; name=\"folder\"") _
      (by decide) (@not_infix_line [] _ (by decide) hin)
    rw [hquote] at hline
    simpa using hline
  · simp [folderPart, filePart, hquote]

/-- What stands before the first quote of the body ends with an equals sign, and no name
does. -/
theorem quote_mem_of_takeWhile (hb : 34 ∉ b) (hname : isValidName filename = true)
    {after more dir : Bytes}
    (h : (after ++ (crlf ++ crlf ++ (delimiter b ++
      (crlf ++ (ascii "Content-Disposition: form-data; name=" ++ 34 :: t) ++
        (crlf ++ delimiter b) ++ more)))).takeWhile (fun x => x ≠ 34) = dir ++ filename) :
    34 ∈ after := by
  by_contra hquote
  have hline : 34 ∉ crlf ++ crlf ++ (delimiter b ++
      (crlf ++ ascii "Content-Disposition: form-data; name=")) := by
    simp only [List.mem_append, not_or]
    exact ⟨⟨by decide, by decide⟩, notMem_delimiter (by decide) hb, by decide, by decide⟩
  have htext : after ++ (crlf ++ crlf ++ (delimiter b ++
      (crlf ++ (ascii "Content-Disposition: form-data; name=" ++ 34 :: t) ++
        (crlf ++ delimiter b) ++ more))) =
      after ++ (crlf ++ crlf ++ (delimiter b ++
        (crlf ++ ascii "Content-Disposition: form-data; name="))) ++
          34 :: (t ++ (crlf ++ delimiter b ++ more)) := by simp
  rw [htext, takeWhile_quote fun h => (List.mem_append.mp h).elim hquote hline] at h
  have hlast := congrArg List.getLast? h
  rw [show ascii "Content-Disposition: form-data; name=" =
    ascii "Content-Disposition: form-data; name" ++ [61] by decide] at hlast
  simp only [← List.append_assoc, List.getLast?_concat] at hlast
  rw [List.getLast?_append_of_ne_nil _ (isValidName_ne_nil hname)] at hlast
  exact notMem_of_isValidName' hname (by decide) (by decide) (List.mem_of_getLast? hlast.symm)

/-- **The name is read** behind the first boundary. -/
theorem namePart_iff {folder : Bytes} (hb : 34 ∉ b) (hb' : 13 ∉ b) (hfolder : 34 ∉ folder)
    (hname : isValidName filename = true) :
    (∃ part, namePart (multipartRequest head (folderPart b folder ++
        filePart b filename type content)) (delimiter b) (folderPart b folder ++
          filePart b filename type content) true = .ok part ∧ uploadName part = filename) ↔
      QuietName b head filename := by
  obtain ⟨t, more, ht, hbody⟩ := @exists_body b filename type content folder hfolder
  have hdelimiter : ¬ filenameField <:+: delimiter b :=
    not_infix_of_notMem (c := 34) (by decide) (notMem_delimiter (by decide) hb)
  have hempty : ¬ filenameField <:+: ([] : Bytes) := by decide
  have hpart : ∀ {s : Bytes}, ¬ filenameField <:+: s → ¬ filenameField <:+: s ++ (crlf ++
      (ascii "Content-Disposition: form-data; name=" ++ 34 :: t) ++ (crlf ++ delimiter b)) := by
    intro s hs
    rw [List.append_assoc crlf]
    exact not_infix_line hs (not_infix_line ht hdelimiter)
  have hsearch : ∀ {part : Bytes}, (∃ p, (Except.ok part : Except Abort Bytes) = .ok p ∧
      uploadName p = filename) ↔ uploadName part = filename := by
    simp
  rw [hbody, namePart, if_pos rfl]
  rcases hcut : cut (delimiter b) head with _ | ⟨front, rest⟩
  · -- the first boundary is the one of the first part
    have hhead : ¬ delimiter b <:+: head := by
      rw [← isSome_cut, hcut]
      exact Bool.false_ne_true
    have hfirst : FirstBehind (delimiter b) (head ++ (crlf ++ crlf)) := by
      rw [FirstBehind, List.append_assoc]
      intro h
      rcases infix_append_cons (notMem_delimiter (by decide) hb') h with h | h
      · exact hhead h
      · exact firstBehind_of_notMem (x := 45) (s := crlf ++ crlf) (by decide) h
    rw [multipartRequest, ← List.append_assoc head, cut_of_firstBehind hfirst]
    obtain ⟨before, hname'⟩ := @cut_filename _ filename type (hpart hempty) more
    refine iff_of_true (hsearch.mpr (uploadName_of_cut hname hname')) fun front rest h => ?_
    exact absurd (hcut.symm.trans h) (by simp)
  · have hquiet : QuietName b head filename ↔
        ∀ before after, cut filenameField rest = some (before, after) →
          ∃ dir w, after = dir ++ (filename ++ 34 :: w) ∧ 34 ∉ dir ∧ EndsFolder dir := by
      rw [QuietName, hcut]
      simp
    rw [multipartRequest, cut_append hcut, hquiet]
    dsimp only
    rw [hsearch]
    rcases hname' : cut filenameField rest with _ | ⟨before, after⟩
    · have hrest : ¬ filenameField <:+: rest := by
        rw [← isSome_cut, hname']
        exact Bool.false_ne_true
      obtain ⟨before, hfound⟩ := @cut_filename _ filename type
        (not_infix_line hrest (not_infix_line hempty (hpart hdelimiter))) more
      refine iff_of_true (uploadName_of_cut hname (Eq.trans (congrArg _ ?_) hfound))
        fun before after h => absurd h (by simp)
      simp
    · rw [uploadName_eq_iff hname (cut_append hname' _)]
      constructor
      · rintro ⟨dir, htake, hdir⟩ before' after' heq
        obtain ⟨rfl, rfl⟩ := Prod.mk.inj (Option.some.inj heq)
        have hquote := quote_mem_of_takeWhile hb hname htake
        obtain ⟨q, w, rfl, hq⟩ := List.eq_append_cons_of_mem hquote
        rw [List.append_assoc, List.cons_append, takeWhile_quote hq] at htake
        refine ⟨dir, w, by rw [htake, List.append_assoc], fun h => hq ?_, hdir⟩
        rw [htake]
        exact List.mem_append_left _ h
      · intro h
        obtain ⟨dir, w, rfl, hquote, hdir⟩ := h before after rfl
        have hname34 : 34 ∉ filename := notMem_of_isValidName' hname (by decide) (by decide)
        refine ⟨dir, ?_, hdir⟩
        have hassoc : ∀ X : Bytes, dir ++ (filename ++ 34 :: w) ++ X =
            dir ++ filename ++ 34 :: (w ++ X) := fun X => by simp
        rw [hassoc, takeWhile_quote fun h => (List.mem_append.mp h).elim hquote hname34]

end Name

/-! ### The data -/

section Data

variable {b folder filename type content : Bytes}

/-- There is no blank line up to the one behind the headers of the file. -/
theorem firstBehind_fileHeaders {line : Bytes} (hline : 13 ∉ line)
    (hname : isValidName filename = true) (htype : 13 ∉ type) :
    FirstBehind (crlf ++ crlf) (line ++ (crlf ++ fileHeaders filename type)) := by
  have hname13 : 13 ∉ filename := notMem_of_isValidName' hname (by decide) (by decide)
  have htail : 13 ∉ ascii "Content-Type:" ++ 32 :: type := fun h =>
    (List.mem_append.mp h).elim (by decide) fun h =>
      (List.mem_cons.mp h).elim (by decide) htype
  have hfirst : 13 ∉ ascii "Content-Disposition: form-data; name=\"file\"; filename=\"" ++
      (filename ++ [34]) := by
    simp only [List.mem_append, not_or]
    exact ⟨by decide, hname13, by decide⟩
  have hheaders : fileHeaders filename type =
      ascii "Content-Disposition: form-data; name=\"file\"; filename=\"" ++ (filename ++ [34]) ++
        (crlf ++ (ascii "Content-Type:" ++ 32 :: type)) := by
    simp [fileHeaders]
  have hsecond : FirstBehind (crlf ++ crlf) (fileHeaders filename type) := by
    rw [hheaders]
    exact FirstBehind.line hfirst (by simp [ascii]) (by simp [ascii]) (firstBehind_of_notMem htail)
  exact FirstBehind.line hline (by simp [fileHeaders, ascii]) (by simp [fileHeaders, ascii]) hsecond

/-- Without a part for the folder the data begin behind the first blank line. -/
theorem extractData_first {front data x : Bytes} (hb : 13 ∉ b) (hx : x.length ≤ 2)
    (hfront : FirstBehind (crlf ++ crlf) front) :
    ∃ start, dataStart false (front ++ (crlf ++ crlf ++
        (data ++ (crlf ++ (delimiter b ++ (ascii "--" ++ x)))))) = some start ∧
      extractData (delimiter b) (front ++ (crlf ++ crlf ++
        (data ++ (crlf ++ (delimiter b ++ (ascii "--" ++ x)))))) start = .ok data := by
  refine ⟨front.length + 4, ?_, ?_⟩
  · rw [dataStart, cut_of_firstBehind hfront]
    rfl
  · have hextract := extractData_last hb hx (front ++ (crlf ++ crlf)) data
    rwa [List.append_assoc, List.length_append] at hextract

/-- and all of them are taken. -/
theorem extractData_first_ne {front data x : Bytes} (hb : 13 ∉ b) (hx : x.length ≤ 2)
    (hfront : FirstBehind (crlf ++ crlf) front) (hne : data ≠ content) :
    ¬∃ start, dataStart false (front ++ (crlf ++ crlf ++
        (data ++ (crlf ++ (delimiter b ++ (ascii "--" ++ x)))))) = some start ∧
      extractData (delimiter b) (front ++ (crlf ++ crlf ++
        (data ++ (crlf ++ (delimiter b ++ (ascii "--" ++ x)))))) start = .ok content := by
  rintro ⟨start, hstart, hextract⟩
  obtain ⟨start', hstart', hextract'⟩ := @extractData_first b _ data _ hb hx hfront
  obtain rfl := Option.some.inj (hstart.symm.trans hstart')
  exact hne (Except.ok.inj (hextract'.symm.trans hextract))

/-- With one, behind the second. -/
theorem extractData_second {front middle x : Bytes} (hb : 13 ∉ b) (hx : x.length ≤ 2)
    (hfront : FirstBehind (crlf ++ crlf) front) (hmiddle : FirstBehind (crlf ++ crlf) middle) :
    ∃ start, dataStart true (front ++ (crlf ++ crlf ++ (middle ++ (crlf ++ crlf ++
        (content ++ (crlf ++ (delimiter b ++ (ascii "--" ++ x)))))))) = some start ∧
      extractData (delimiter b) (front ++ (crlf ++ crlf ++ (middle ++ (crlf ++ crlf ++
        (content ++ (crlf ++ (delimiter b ++ (ascii "--" ++ x)))))))) start = .ok content := by
  refine ⟨front.length + 4 + middle.length + 4, ?_, ?_⟩
  · rw [dataStart, cut_of_firstBehind hfront, Option.map_some, if_pos rfl,
      cut_of_firstBehind hmiddle]
  · have hextract := extractData_last hb hx
      (front ++ (crlf ++ crlf ++ (middle ++ (crlf ++ crlf)))) content
    have hlen : (front ++ (crlf ++ crlf ++ (middle ++ (crlf ++ crlf)))).length =
        front.length + 4 + middle.length + 4 := by
      simp only [List.length_append, crlf, List.length_cons, List.length_nil]
      omega
    rw [hlen] at hextract
    simpa only [List.append_assoc] using hextract

/-- The file is not what comes behind the headers of a part for the folder. -/
theorem behindFolder_ne (folder t : Bytes) :
    folder ++ (crlf ++ t) ++ (crlf ++ crlf ++ content) ≠ content := by
  intro heq
  have hlen := congrArg List.length heq
  simp only [List.length_append, crlf, List.length_cons] at hlen
  omega

theorem firstBehind_folderHeaders (hb : 13 ∉ b) :
    FirstBehind (crlf ++ crlf) (delimiter b ++
      (crlf ++ ascii "Content-Disposition: form-data; name=\"folder\"")) :=
  FirstBehind.line (notMem_delimiter (by decide) hb) (by decide) (by decide) (by decide)

/-- The data of a body without a part for the folder. -/
theorem extractData_fileOnly (hb : 13 ∉ b) (hname : isValidName filename = true)
    (htype : 13 ∉ type) :
    ∃ start, dataStart false (multipartBody b none filename type content) = some start ∧
      extractData (delimiter b) (multipartBody b none filename type content) start =
        .ok content := by
  have hdata := @extractData_first b _ content crlf hb le_rfl (firstBehind_fileHeaders
    (notMem_delimiter (by decide) hb) hname htype)
  have hbody : multipartBody b none filename type content = delimiter b ++ (crlf ++
      (fileHeaders filename type ++ (crlf ++ crlf ++ (content ++ closing b)))) := rfl
  rw [hbody]
  simpa only [List.append_assoc, closing] using hdata

/-- The data of a body with a part for the folder. -/
theorem extractData_folder (hb : 13 ∉ b) (hfolder : 13 ∉ folder)
    (hname : isValidName filename = true) (htype : 13 ∉ type) :
    ∃ start, dataStart true (multipartBody b (some folder) filename type content) = some start ∧
      extractData (delimiter b) (multipartBody b (some folder) filename type content) start =
        .ok content := by
  have hmiddle : FirstBehind (crlf ++ crlf) (folder ++ (crlf ++ (delimiter b ++
      (crlf ++ fileHeaders filename type)))) :=
    FirstBehind.line hfolder (by simp [delimiter_eq]) (by simp [delimiter_eq])
      (firstBehind_fileHeaders (notMem_delimiter (by decide) hb) hname htype)
  have hdata := @extractData_second b content _ _ crlf hb le_rfl (firstBehind_folderHeaders hb)
    hmiddle
  have htext : delimiter b ++ (crlf ++
      ascii "Content-Disposition: form-data; name=\"folder\"") ++ (crlf ++ crlf ++
        (folder ++ (crlf ++ (delimiter b ++ (crlf ++ fileHeaders filename type))) ++
          (crlf ++ crlf ++ (content ++ closing b)))) =
      multipartBody b (some folder) filename type content := by
    simp [multipartBody, folderPart, filePart]
  rw [closing] at htext
  rwa [htext] at hdata

/-- If the part for the folder is taken for the file, more than the data is read. -/
theorem extractData_folder_ne (hb : 13 ∉ b) :
    ¬∃ start, dataStart false (multipartBody b (some folder) filename type content) = some start ∧
      extractData (delimiter b) (multipartBody b (some folder) filename type content) start =
        .ok content := by
  have hne := @extractData_first_ne b content _ (folder ++ (crlf ++ (delimiter b ++
    (crlf ++ fileHeaders filename type))) ++ (crlf ++ crlf ++ content)) crlf hb le_rfl
    (firstBehind_folderHeaders hb) (behindFolder_ne folder _)
  have htext : delimiter b ++ (crlf ++
      ascii "Content-Disposition: form-data; name=\"folder\"") ++ (crlf ++ crlf ++
        (folder ++ (crlf ++ (delimiter b ++ (crlf ++ fileHeaders filename type))) ++
          (crlf ++ crlf ++ content) ++ closing b)) =
      multipartBody b (some folder) filename type content := by
    simp [multipartBody, folderPart, filePart]
  rw [closing] at htext
  rwa [htext] at hne

end Data

/-! ### What is read -/

section Read

variable {b head filename type content : Bytes} {received : List Bytes}

/-- **What an upload says is read**: without a part for the folder, when the field for it is
named neither in the headers nor, with a value, in the part for the file; with one, when the
field is not named in the headers and has a value, and the headers name no other file. -/
theorem uploadParams_multipart_iff {folder : Option Bytes} (hhead : IsUploadHead b head)
    (hb : 13 ∉ b) (hb' : 34 ∉ b) (hfolder : ∀ p ∈ folder, IsFolderPath p)
    (hname : isValidName filename = true) (htype : 13 ∉ type)
    (hraw : rawBody received (multipartRequest head (multipartBody b folder filename type content))
      (delimiter b) (multipartBody b folder filename type content) =
        .ok (multipartBody b folder filename type content)) :
    uploadParams received (multipartRequest head (multipartBody b folder filename type content)) =
        .ok (.found ⟨folder.getD [], filename, content⟩) ↔
      ¬ folderField <:+: head ∧
        match folder with
        | none => QuietFile filename type content
        | some p => p ≠ [] ∧ QuietName b head filename := by
  have hboundary := extractBoundary_request hhead hb
    (multipartBody b folder filename type content)
  rw [← hboundary] at hraw
  rw [uploadParams_request hhead hb, uploadFile_eq_iff hraw hname, hboundary]
  cases folder with
  | none =>
    have hbody : multipartBody b none filename type content = delimiter b ++ (crlf ++
        (fileHeaders filename type ++ (crlf ++ crlf ++ (content ++ closing b)))) := rfl
    have hdata := @extractData_fileOnly b filename type content hb hname htype
    rw [hbody] at hdata ⊢
    by_cases hin : folderField <:+: head
    · rw [parseField_of_head hhead hb hin]
      exact iff_of_false (fun h => List.cons_ne_nil _ _ h.1) fun h => h.1 hin
    · rw [parseField_of_body hin hb', Option.getD_none, parseField_file_iff hb' hb hname htype]
      have hdelimiter : ¬ filenameField <:+: delimiter b :=
        not_infix_of_notMem (c := 34) (by decide) (notMem_delimiter (by decide) hb')
      obtain ⟨before, hcut⟩ := @cut_filename _ filename type hdelimiter
        (crlf ++ crlf ++ (content ++ closing b))
      exact ⟨fun h => ⟨hin, h.1⟩, fun h =>
        ⟨h.2, ⟨_, rfl, uploadName_of_cut hname hcut⟩, hdata⟩⟩
  | some p =>
    have hp : IsFolderPath p := hfolder p rfl
    have hp13 : 13 ∉ p := notMem_of_isFolderPath hp (by decide) (by decide) (by decide)
    have hp34 : 34 ∉ p := notMem_of_isFolderPath hp (by decide) (by decide) (by decide)
    have hp45 : 45 ∉ p := notMem_of_isFolderPath hp (by decide) (by decide) (by decide)
    have hbody : multipartBody b (some p) filename type content = delimiter b ++ (crlf ++
        (ascii "Content-Disposition: form-data; name=\"folder\"" ++ (crlf ++ crlf ++
          (p ++ (crlf ++ filePart b filename type content))))) := by
      simp [multipartBody, folderPart]
    by_cases hin : folderField <:+: head
    · rw [hbody, parseField_of_head hhead hb hin]
      refine iff_of_false (fun h => hp45 ?_) fun h => h.1 hin
      rw [← show delimiter b = p from h.1]
      exact List.mem_cons_self
    by_cases hnil : p = []
    · -- an empty field counts as none, and then the data begin with the second part
      subst hnil
      exact iff_of_false (fun h => extractData_folder_ne hb h.2.2) fun h => h.2.1 rfl
    · have hyes : decide ((some p).getD [] ≠ []) = true := decide_eq_true hnil
      have hparse : parseMultipartFieldStorage (multipartRequest head
          (multipartBody b (some p) filename type content)) "folder" = p := by
        rw [hbody, parseField_of_body hin hb', parseField_folderPart hp13]
      have hbody' : multipartBody b (some p) filename type content =
          folderPart b p ++ filePart b filename type content := rfl
      have hdata := @extractData_folder b p filename type content hb hp13 hname htype
      rw [hbody'] at hdata
      rw [hparse, hyes, hbody', namePart_iff hb' hb hp34 hname]
      exact ⟨fun h => ⟨hin, hnil, h.2.1⟩, fun h => ⟨rfl, h.2.2, hdata⟩⟩

/-- The head of an upload with the boundary `xy`. -/
def uploadHead : Bytes :=
  ascii "POST /upload HTTP/1.1" ++ crlf ++ ascii "Content-Type: multipart/form-data; boundary=xy"

example : ¬folderField <:+: uploadHead := by decide +kernel

theorem isUploadHead_uploadHead : IsUploadHead (ascii "xy") uploadHead where
  noQuery := by decide +kernel
  noBlank := by decide +kernel
  boundary := ⟨ascii "POST /upload HTTP/1.1" ++ crlf, [], by decide +kernel, Or.inl rfl⟩

/-- A file `t` for the folder `d`. -/
theorem uploadParams_fileInFolder :
    uploadParams [] (multipartRequest uploadHead
        (multipartBody (ascii "xy") (some (ascii "d")) (ascii "t") (ascii "text/plain")
          (ascii "hi"))) = .ok (.found ⟨ascii "d", ascii "t", ascii "hi"⟩) ↔
      ¬ folderField <:+: uploadHead ∧
        ascii "d" ≠ [] ∧ QuietName (ascii "xy") uploadHead (ascii "t") :=
  uploadParams_multipart_iff isUploadHead_uploadHead (by decide) (by decide)
    (fun p hp => Option.some.inj hp ▸ Or.inr (IsPath.of_isValidName (by decide))) (by decide)
    (by decide) (by decide +kernel)

/-- **A file with the name `folder`** and no part for the folder: its first line is taken for
the folder, and its data begin too late. -/
theorem uploadParams_misread :
    uploadParams [] (multipartRequest uploadHead
        (multipartBody (ascii "xy") none (ascii "folder") (ascii "text/plain") (ascii "hello"))) =
      .ok (.found ⟨ascii "hello", ascii "folder", ascii "lo"⟩) := by
  decide +kernel

end Read

end PennCloud
