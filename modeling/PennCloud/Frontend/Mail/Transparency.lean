import PennCloud.Frontend.Mail.Handoff

/-!
# What is stored of a message

A client sends a message as lines: headers, a blank line, the body with a dot before
every line that begins with one, and a single dot. The server should store the lines of
the body, under the subject of the headers. But what it does to a line it does before
it looks at the mode. Blanks around a line are gone, blank lines and those that are too
long do not count, and the dot before a dot stays. The blank line between headers and
body is one of the lines that do not count, so the first line of the body is taken for
a header if it has a colon; and a body line of blanks and nothing else than a dot ends
the message.

`PennCloud.Smtp.delivered_iff` says which messages are stored as they were sent. That
no other message is follows from the number of lines: of the lines of a message some
are kept (`PennCloud.Smtp.keptLines`), and as many as there are only if each of them is
kept.
-/

namespace PennCloud

namespace Smtp

open Wire Calls Text Lines

/-! ### A message as it is sent -/

/-- A line of a body on its way: a dot at the beginning is doubled. -/
def stuff (l : Bytes) : Bytes := if l.head? = some 46 then 46 :: l else l

/-- The lines of a message with headers and a body. -/
def messageLines (headers body : List Bytes) : List Bytes :=
  headers ++ [] :: (body.map stuff ++ [ascii "."])

/-- Lines, each with its end. -/
def lineText (ls : List Bytes) : Bytes := ls.flatMap (· ++ crlf)

/-- The name of a header line, without blanks around it. -/
def headerName (l : Bytes) : Bytes := trim ((trim l).takeWhile (· ≠ 58))

/-- Whether a header line is the subject; the case does not matter. -/
def IsSubject (l : Bytes) : Prop := (headerName l).map toUpper = ascii "SUBJECT"

instance (l : Bytes) : Decidable (IsSubject l) := inferInstanceAs (Decidable (_ = _))

/-- The subject of a message: what the first subject line says behind its colon. -/
def headerSubject (headers : List Bytes) : Bytes :=
  match headers.find? fun l => IsSubject l with
  | some l => trim (((trim l).dropWhile (· ≠ 58)).drop 1)
  | none => ascii "No Subject"

/-- A header line that is recognised: it is not too long, and if it is the subject, it is
spelled as the server spells it. -/
def Recognised (l : Bytes) : Prop :=
  (trim l).length ≤ bufferLength ∧ (IsSubject l → ascii "Subject:" <+: trim l)

instance (l : Bytes) : Decidable (Recognised l) := inferInstanceAs (Decidable (_ ∧ (_ → _)))

/-- The messages that are stored as they were sent. -/
structure Transparent (headers body : List Bytes) : Prop where
  /-- A line of the body is not empty, does not begin with a dot, is trimmed, and is not
  too long. -/
  lines : ∀ l ∈ body, l ≠ [] ∧ l.head? ≠ some 46 ∧ trim l = l ∧ l.length ≤ bufferLength
  /-- The first one has no colon. -/
  first : ∀ l ∈ body.head?, 58 ∉ l
  /-- Headers that are not recognised do not matter for the subject. -/
  subject : headerSubject (headers.filter fun l => Recognised l) = headerSubject headers

/-- The lines of a text that begins with lines. -/
theorem linesOf_lineText {ls : List Bytes} (h : ∀ l ∈ ls, 10 ∉ l) (t : Bytes) :
    linesOf (lineText ls ++ t) = ls ++ linesOf t := by
  induction ls with
  | nil => rfl
  | cons l ls ih =>
    have hrest := ih fun l' hl' => h l' (List.mem_cons_of_mem l hl')
    have hone := pieces_of_oneLine (oneLine_of_notMem (h l List.mem_cons_self))
    rw [lineText, List.flatMap_cons, List.append_assoc, List.append_assoc, linesOf_append_crlf,
      hone, ← lineText, hrest, List.singleton_append, List.cons_append]

/-! ### Dots -/

section Dots

variable {l : Bytes}

theorem stuff_of_ne (h : l.head? ≠ some 46) : stuff l = l := if_neg h

theorem notMem_stuff (h : 10 ∉ l) : 10 ∉ stuff l := by
  rw [stuff]
  split_ifs
  · exact List.not_mem_cons_of_ne_of_not_mem (by decide) h
  · exact h

/-- A line with a dot before a dot is never read as it was. -/
theorem trim_stuff (h : l.head? = some 46) : trim (stuff l) ≠ l := by
  obtain ⟨l', rfl⟩ := List.head?_eq_some_iff.mp h
  have htwo : stuff (46 :: l') = 46 :: 46 :: l' := if_pos h
  have hl : ltrim (46 :: 46 :: l') = 46 :: 46 :: l' :=
    List.dropWhile_cons_of_neg (by decide)
  intro heq
  rw [htwo, trim, hl] at heq
  -- nothing is trimmed at the end of the line, as it is a trimmed one
  have hself : rtrim (46 :: l') = 46 :: l' := by
    rw [← heq]
    exact List.rdropWhile_idempotent isSpace _
  have hlast := List.rdropWhile_eq_self_iff.mp hself (List.cons_ne_nil 46 l')
  have htwice : rtrim (46 :: 46 :: l') = 46 :: 46 :: l' := by
    refine List.rdropWhile_eq_self_iff.mpr fun _ => ?_
    rwa [List.getLast_cons (List.cons_ne_nil 46 l')]
  have hlen := congrArg List.length (htwice.symm.trans heq)
  simp at hlen

end Dots

/-! ### The lines that are kept -/

/-- The lines of the body that the server makes of lines, if they may still be headers
or not. -/
def keptLines : Bool → List Bytes → List Bytes
  | _, [] => []
  | inHeader, l :: ls =>
    if ¬Taken l then keptLines inHeader ls
    else if inHeader = true ∧ 58 ∈ trim l then keptLines inHeader ls
    else trim l :: keptLines false ls

theorem bodyBlock_foldl (ls : List Bytes) (st : Session) :
    (ls.foldl takeData st).bodyBlock =
      st.bodyBlock ++ bodyText (keptLines st.inHeaderSection ls) := by
  induction ls generalizing st with
  | nil => exact (List.append_nil _).symm
  | cons l ls ih =>
    rw [List.foldl_cons, ih, keptLines]
    by_cases htaken : Taken l
    · rw [if_neg (not_not.mpr htaken)]
      by_cases hheader : st.inHeaderSection = true ∧ 58 ∈ trim l
      · rw [if_pos hheader, takeData_header hheader.1 htaken hheader.2]
      · rw [if_neg hheader, takeData_body htaken (not_and.mp hheader)]
        simp [bodyText]
    · rw [if_pos htaken, takeData_of_not_taken htaken]

theorem length_keptLines_le (inHeader : Bool) (ls : List Bytes) :
    (keptLines inHeader ls).length ≤ ls.length := by
  induction ls generalizing inHeader with
  | nil => exact le_refl _
  | cons l ls ih =>
    have hsame := ih inHeader
    have hbody := ih false
    rw [keptLines]
    split_ifs
    all_goals simp only [List.length_cons]
    all_goals omega

/-- **Every line is kept** if and only if each is looked at and the first one is not
taken for a header. -/
theorem length_keptLines {inHeader : Bool} {ls : List Bytes}
    (h : ls.length ≤ (keptLines inHeader ls).length) :
    keptLines inHeader ls = ls.map trim ∧ (∀ l ∈ ls, Taken l) ∧
      (inHeader = true → ∀ l ∈ ls.head?, 58 ∉ trim l) := by
  induction ls generalizing inHeader with
  | nil => exact ⟨rfl, by simp, by simp⟩
  | cons l ls ih =>
    have hsame := length_keptLines_le inHeader ls
    rw [keptLines] at h ⊢
    rw [List.length_cons] at h
    by_cases htaken : Taken l
    · rw [if_neg (not_not.mpr htaken)] at h ⊢
      by_cases hheader : inHeader = true ∧ 58 ∈ trim l
      · rw [if_pos hheader] at h
        omega
      · rw [if_neg hheader, List.length_cons] at h
        obtain ⟨hkept, hall, -⟩ := @ih false (by omega)
        refine ⟨?_, ?_, ?_⟩
        · rw [if_neg hheader, hkept, List.map_cons]
        · exact List.forall_mem_cons.mpr ⟨htaken, hall⟩
        · intro hin l' hl'
          obtain rfl : l = l' := by simpa using hl'
          exact not_and.mp hheader hin
    · rw [if_pos htaken] at h
      omega

/-- What is kept of lines has no end of a line in it. -/
theorem notMem_of_mem_keptLines {inHeader : Bool} {ls : List Bytes} (h : ∀ l ∈ ls, 10 ∉ l)
    {l : Bytes} (hl : l ∈ keptLines inHeader ls) : 10 ∉ l := by
  induction ls generalizing inHeader with
  | nil => exact absurd hl List.not_mem_nil
  | cons l' ls ih =>
    obtain ⟨hhead, htail⟩ := List.forall_mem_cons.mp h
    rw [keptLines] at hl
    split_ifs at hl
    · exact ih htail hl
    · rcases List.mem_cons.mp hl with rfl | hl
      · exact fun hmem => hhead ((trim_isInfix l').subset hmem)
      · exact ih htail hl
    · exact ih htail hl

/-- The lines of a body can be read back. -/
theorem getlines_bodyText {ls : List Bytes} (h : ∀ l ∈ ls, 10 ∉ l) :
    getlines 10 (bodyText ls) = ls :=
  getlines_flatMap h

/-- Lines that make a body are kept as they are. -/
theorem keptLines_of_bodyLike {inHeader : Bool} {ls : List Bytes} (h : BodyLike inHeader ls) :
    keptLines inHeader ls = ls := by
  induction ls generalizing inHeader with
  | nil => rfl
  | cons l ls ih =>
    obtain ⟨htaken, htrim⟩ := h.taken l List.mem_cons_self
    have hcolon : ¬(inHeader = true ∧ 58 ∈ trim l) := by
      rintro ⟨hin, hmem⟩
      exact h.first hin l rfl (htrim ▸ hmem)
    rw [keptLines, if_neg (not_not.mpr htaken), if_neg hcolon, htrim, ih h.tail]

/-- The lines of a body up to the first one that ends the message. -/
def upToDot (body : List Bytes) : List Bytes :=
  body.takeWhile fun l => trim (stuff l) ≠ ascii "."

section Plain

variable {body : List Bytes}
  (h : ∀ l ∈ body, l ≠ [] ∧ l.head? ≠ some 46 ∧ trim l = l ∧ l.length ≤ bufferLength)

include h

theorem map_stuff : body.map stuff = body :=
  (List.map_congr_left fun l hl => stuff_of_ne (h l hl).2.1).trans (List.map_id body)

theorem upToDot_eq : upToDot body = body := by
  refine List.takeWhile_eq_self_iff.mpr fun l hl => decide_eq_true ?_
  obtain ⟨-, hdot, htrim, -⟩ := h l hl
  rw [stuff_of_ne hdot, htrim]
  rintro rfl
  exact hdot rfl

theorem bodyLike_of_lines (hfirst : ∀ l ∈ body.head?, 58 ∉ l) : BodyLike true body where
  taken l hl := by
    obtain ⟨hne, -, htrim, hlen⟩ := h l hl
    exact ⟨taken_of_trim htrim hne hlen, htrim⟩
  first _ := hfirst

end Plain

/-- **A body is kept** if and only if its lines are kept as they are. -/
theorem kept_body_iff {body : List Bytes} (h : ∀ l ∈ body, 10 ∉ l) :
    bodyText (keptLines true ((upToDot body).map stuff)) = bodyText body ↔
      (∀ l ∈ body, l ≠ [] ∧ l.head? ≠ some 46 ∧ trim l = l ∧ l.length ≤ bufferLength) ∧
        ∀ l ∈ body.head?, 58 ∉ l := by
  constructor
  · intro htext
    have hstuff : ∀ l ∈ (upToDot body).map stuff, 10 ∉ l := by
      intro l hl
      obtain ⟨l', hl', rfl⟩ := List.mem_map.mp hl
      exact notMem_stuff (h l' ((List.takeWhile_prefix _).subset hl'))
    have hkept : keptLines true ((upToDot body).map stuff) = body := by
      have hlines := congrArg (getlines 10) htext
      rwa [getlines_bodyText fun l => notMem_of_mem_keptLines hstuff, getlines_bodyText h] at hlines
    -- there are as many lines as in the body only if none of them ends the message
    have hle := length_keptLines_le true ((upToDot body).map stuff)
    rw [hkept, List.length_map] at hle
    have hall : upToDot body = body := (List.takeWhile_prefix _).eq_of_length_le hle
    rw [hall] at hkept
    have hlen : (body.map stuff).length ≤ (keptLines true (body.map stuff)).length := by
      rw [hkept, List.length_map]
    obtain ⟨hmap, htaken, hfirst⟩ := length_keptLines hlen
    have hread : ∀ l ∈ body, trim (stuff l) = l := by
      rw [hmap, List.map_map] at hkept
      exact List.map_inj_left.mp (hkept.trans (List.map_id body).symm)
    refine ⟨fun l hl => ?_, fun l hl => ?_⟩
    · have hdot : l.head? ≠ some 46 := fun hdot => trim_stuff hdot (hread l hl)
      have htrim := hread l hl
      have hl' := htaken (stuff l) (List.mem_map_of_mem hl)
      rw [stuff_of_ne hdot] at htrim hl'
      rw [Taken, htrim] at hl'
      exact ⟨hl'.1, hdot, htrim, hl'.2⟩
    · have hcolon := hfirst rfl (stuff l) (by rw [List.head?_map, hl]; rfl)
      rwa [hread l (List.mem_of_mem_head? hl)] at hcolon
  · rintro ⟨hlines, hfirst⟩
    have hlike := bodyLike_of_lines hlines hfirst
    rw [upToDot_eq hlines, map_stuff hlines, keptLines_of_bodyLike hlike]

/-! ### Subjects -/

/-- The headers that the server keeps. -/
theorem getlines_headerText {headers : List Bytes} (h : ∀ l ∈ headers, 10 ∉ l) :
    getlines 10 (headerText headers) = (headers.filter fun l => Taken l).map trim := by
  have htext : headerText headers =
      ((headers.filter fun l => Taken l).map trim).flatMap (· ++ [10]) := by
    rw [List.flatMap_map]
    rfl
  rw [htext, getlines_flatMap]
  intro l hl
  obtain ⟨l', hl', rfl⟩ := List.mem_map.mp hl
  exact fun hmem => h l' (List.mem_of_mem_filter hl') ((trim_isInfix l').subset hmem)

/-- A line that the server takes for the subject. -/
theorem isSubject_of_prefixed {l : Bytes} (h : ascii "Subject:" <+: trim l) :
    IsSubject l ∧ ((trim l).dropWhile (· ≠ 58)).drop 1 = (trim l).drop 8 := by
  obtain ⟨v, hv⟩ := h
  rw [IsSubject, headerName, ← hv]
  exact ⟨rfl, rfl⟩

/-- The line that the server looks for. -/
theorem find_subject (headers : List Bytes) :
    ((headers.filter fun l => Taken l).map trim).find? (ascii "Subject:").isPrefixOf =
      ((headers.filter fun l => Recognised l).find? fun l => IsSubject l).map trim := by
  induction headers with
  | nil => rfl
  | cons l headers ih =>
    by_cases hprefix : ascii "Subject:" <+: trim l
    · have hsubject := (isSubject_of_prefixed hprefix).1
      by_cases hlen : (trim l).length ≤ bufferLength
      · have hne : trim l ≠ [] := fun hnil => absurd (hnil ▸ hprefix) (by decide)
        have htaken : Taken l := ⟨hne, hlen⟩
        have hrecognised : Recognised l := ⟨hlen, fun _ => hprefix⟩
        rw [List.filter_cons_of_pos (by simpa using htaken),
          List.filter_cons_of_pos (by simpa using hrecognised),
          List.map_cons, List.find?_cons_of_pos (List.isPrefixOf_iff_prefix.mpr hprefix),
          List.find?_cons_of_pos (by simpa using hsubject), Option.map_some]
      · have htaken : ¬Taken l := fun h => hlen h.2
        have hrecognised : ¬Recognised l := fun h => hlen h.1
        rw [List.filter_cons_of_neg (by simpa using htaken),
          List.filter_cons_of_neg (by simpa using hrecognised), ih]
    · have hleft : (((l :: headers).filter fun l => Taken l).map trim).find?
          (ascii "Subject:").isPrefixOf =
            ((headers.filter fun l => Taken l).map trim).find? (ascii "Subject:").isPrefixOf := by
        by_cases htaken : Taken l
        · rw [List.filter_cons_of_pos (by simpa using htaken), List.map_cons,
            List.find?_cons_of_neg fun h => hprefix (List.isPrefixOf_iff_prefix.mp h)]
        · rw [List.filter_cons_of_neg (by simpa using htaken)]
      have hright : ((l :: headers).filter fun l => Recognised l).find? (fun l => IsSubject l) =
          (headers.filter fun l => Recognised l).find? fun l => IsSubject l := by
        by_cases hrecognised : Recognised l
        · have hsubject : ¬IsSubject l := fun h => hprefix (hrecognised.2 h)
          rw [List.filter_cons_of_pos (by simpa using hrecognised),
            List.find?_cons_of_neg (by simpa using hsubject)]
        · rw [List.filter_cons_of_neg (by simpa using hrecognised)]
      rw [hleft, hright, ih]

/-- **The subject that is used** is that of the headers that are recognised. -/
theorem subjectOf_headerText {headers : List Bytes} (h : ∀ l ∈ headers, 10 ∉ l) :
    subjectOf (headerText headers) = headerSubject (headers.filter fun l => Recognised l) := by
  rw [subjectOf, getlines_headerText h, find_subject, headerSubject]
  rcases hfind : (headers.filter fun l => Recognised l).find? fun l => IsSubject l with _ | l
  · rfl
  · obtain ⟨-, hrecognised⟩ := List.mem_filter.mp (List.mem_of_find?_eq_some hfind)
    have hsubject : IsSubject l := by simpa using List.find?_some hfind
    have hrecognised' : Recognised l := by simpa using hrecognised
    have hprefix := hrecognised'.2 hsubject
    simp only [Option.map_some, (isSubject_of_prefixed hprefix).2]

/-! ### What is delivered -/

/-- A message that is stored for a recipient: sender, recipient, subject and body. -/
abbrev Delivery := Bytes × Bytes × Bytes × Bytes

def Output.delivery : Output → Option Delivery
  | .deliver sender recipient subject _ body => some (sender, recipient, subject, body)
  | _ => none

/-- What is stored of messages, in their order. -/
def deliveries (out : List Output) : List Delivery := out.filterMap Output.delivery

/-- A message to all recipients that a server has at `localhost`. -/
def deliveredTo (st : Session) (subject body : Bytes) : List Delivery :=
  st.validRecipients.map fun recipient => (st.senderEmail, recipient, subject, body)

/-- A message has just begun: `DATA` was accepted. -/
structure Begun (st : Session) : Prop where
  mode : st.isDataRecptMode = true
  header : st.inHeaderSection = true
  headers : st.headersBlock = []
  body : st.bodyBlock = []

section Deliveries

variable (moments : ℕ → Moment) (moment : Moment) (st : Session)

theorem deliveries_append (out out' : List Output) :
    deliveries (out ++ out') = deliveries out ++ deliveries out' := List.filterMap_append

theorem deliveries_relayAll (k : ℕ) (recipients : List Bytes) :
    deliveries (relayAll moment st k recipients) = [] := by
  induction recipients generalizing k with
  | nil => rfl
  | cons a recipients ih =>
    have hone : deliveries (relayTo moment st k a) = [] := by
      rcases hcut : cut (ascii "@") a with _ | ⟨p, domain⟩
      · simp only [relayTo, hcut]
        rfl
      · rcases hrelay : moment.relay k domain with _ | _ <;> simp only [relayTo, hcut, hrelay]
        · rfl
        · rfl
    rw [relayAll, deliveries_append, hone, ih, List.append_nil]

/-- The final dot stores the message for the recipients at `localhost`. -/
theorem deliveries_endOfData (x : Bool) :
    deliveries (endOfData moment st x).1 =
      deliveredTo st (subjectOf st.headersBlock) st.bodyBlock := by
  by_cases hnone : (st.validRecipients.isEmpty && st.nonLocalRecipients.isEmpty) = true
  · have hvalid := List.isEmpty_iff.mp ((Bool.and_eq_true _ _).mp hnone).1
    rw [endOfData, if_pos hnone, deliveredTo, hvalid]
    rfl
  · have hrelay : deliveries (if x = true then relayAll moment st 0 st.nonLocalRecipients
        else []) = [] := by
      split_ifs
      · exact deliveries_relayAll moment st 0 _
      · rfl
    have hlocal : deliveries (st.validRecipients.map (deliverTo moment st)) =
        deliveredTo st (subjectOf st.headersBlock) st.bodyBlock := by
      rw [deliveries, List.filterMap_map, deliveredTo, ← List.filterMap_eq_map]
      rfl
    have hreply : deliveries
        [.reply (ascii "250 Data input complete. Exiting DATA mode.\r\n")] = [] := rfl
    simp only [endOfData, if_neg hnone, deliveries_append, hrelay, hlocal, hreply, List.append_nil]

variable {moments st}

/-- The lines of a message store nothing. -/
theorem run_takeData {x : Bool} {n : ℕ} (hmode : st.isDataRecptMode = true) {ls : List Bytes}
    (hdot : ∀ l ∈ ls, trim l ≠ ascii ".") :
    ∃ out, run (step x moments) n st ls = (out, some (ls.foldl takeData st)) ∧
      deliveries out = [] := by
  induction ls generalizing n st with
  | nil => exact ⟨[], rfl, rfl⟩
  | cons l ls ih =>
    have hstep : ∃ out, step x moments n st l = (out, some (takeData st l)) ∧
        deliveries out = [] := by
      by_cases htaken : Taken l
      · refine ⟨[], ?_, rfl⟩
        rw [step, handleLine_data htaken hmode (hdot l List.mem_cons_self), takeData,
          if_pos htaken]
      · have hskip : step x moments n st l = _ := handleLine_of_not_taken htaken
        rw [takeData_of_not_taken htaken]
        refine ⟨_, hskip, ?_⟩
        split_ifs <;> rfl
    obtain ⟨out, hout, hnone⟩ := hstep
    have hmode' : (takeData st l).isDataRecptMode = true :=
      (sameEnvelope_takeData st l).mode.trans hmode
    obtain ⟨out', hout', hnone'⟩ :=
      ih (n := n + 1) hmode' fun l' hl' => hdot l' (List.mem_cons_of_mem l hl')
    refine ⟨out ++ out', ?_, ?_⟩
    · rw [run_cons_some hout, hout', List.foldl_cons]
    · rw [deliveries_append, hnone, hnone']
      rfl

/-- **What is stored of lines up to a dot**, whatever comes behind it. -/
theorem deliveries_upTo {x : Bool} {n : ℕ} (hmode : st.isDataRecptMode = true)
    {ls : List Bytes} (hls : ∀ l ∈ ls, trim l ≠ ascii ".") {dot : Bytes}
    (hdot : trim dot = ascii ".") (rest : List Bytes) :
    ∃ later, deliveries (run (step x moments) n st (ls ++ dot :: rest)).1 =
      deliveredTo st (subjectOf (ls.foldl takeData st).headersBlock)
        (ls.foldl takeData st).bodyBlock ++ later := by
  obtain ⟨out, hrun, hout⟩ := @run_takeData moments st x n hmode ls hls
  have henv := sameEnvelope_foldl ls st
  set st' := ls.foldl takeData st
  have htaken : Taken dot := by
    rw [Taken, hdot]
    decide
  have hstep : step x moments (n + ls.length) st' dot =
      ((endOfData (moments (n + ls.length)) st' x).1,
        some (endOfData (moments (n + ls.length)) st' x).2) := by
    rw [step, handleLine_dot htaken (henv.mode.trans hmode) hdot]
  have hsame : deliveredTo st' = deliveredTo st := by
    funext subject body
    rw [deliveredTo, deliveredTo, henv.valid, henv.sender]
  rw [run_append hrun, run_cons_some hstep, deliveries_append, deliveries_append, hout,
    deliveries_endOfData, hsame]
  exact ⟨_, rfl⟩

/-- The recipients get what is sent to them if and only if it is what they should get. -/
theorem deliveredTo_prefix_iff {subject subject' body body' : Bytes} {later : List Delivery} :
    deliveredTo st subject body <+: deliveredTo st subject' body' ++ later ↔
      st.validRecipients = [] ∨ (subject' = subject ∧ body' = body) := by
  constructor
  · intro h
    have heq : deliveredTo st subject body = deliveredTo st subject' body' := by
      refine (List.prefix_of_prefix_length_le h (List.prefix_append _ later) ?_).eq_of_length ?_ <;>
        simp [deliveredTo]
    rcases hvalid : st.validRecipients with _ | ⟨a, valid⟩
    · exact Or.inl rfl
    · rw [deliveredTo, deliveredTo, hvalid, List.map_cons, List.map_cons] at heq
      have hhead := (List.cons.inj heq).1
      simp only [Prod.mk.injEq, true_and] at hhead
      exact Or.inr ⟨hhead.1.symm, hhead.2.symm⟩
  · rintro (hvalid | ⟨rfl, rfl⟩)
    · rw [deliveredTo, hvalid]
      exact List.nil_prefix
    · exact List.prefix_append _ later

end Deliveries

/-! ### A message of a session -/

section Message

variable {headers body : List Bytes}

/-- The lines of a message are lines. -/
theorem notMem_messageLines (hheaders : ∀ l ∈ headers, 10 ∉ l) (hbody : ∀ l ∈ body, 10 ∉ l) :
    ∀ l ∈ messageLines headers body, 10 ∉ l := by
  intro l hl
  simp only [messageLines, List.mem_append, List.mem_cons, List.mem_map, List.not_mem_nil,
    or_false] at hl
  rcases hl with hl | rfl | ⟨l', hl', rfl⟩ | rfl
  · exact hheaders l hl
  · exact List.not_mem_nil
  · exact notMem_stuff (hbody l' hl')
  · decide

/-- The lines of a message that the server takes for its data: those before the first
line with a single dot. -/
def dataLines (headers body : List Bytes) : List Bytes :=
  headers ++ [] :: (upToDot body).map stuff

theorem exists_dot (headers body rest : List Bytes) :
    ∃ dot rest', trim dot = ascii "." ∧
      messageLines headers body ++ rest = dataLines headers body ++ dot :: rest' := by
  have hsplit : upToDot body ++ body.dropWhile (fun l => trim (stuff l) ≠ ascii ".") = body :=
    List.takeWhile_append_dropWhile
  rcases hdrop : body.dropWhile (fun l => trim (stuff l) ≠ ascii ".") with _ | ⟨d, ds⟩
  · rw [hdrop, List.append_nil] at hsplit
    refine ⟨ascii ".", rest, by decide, ?_⟩
    simp [messageLines, dataLines, hsplit]
  · have hdot := List.head?_dropWhile_not (fun l => trim (stuff l) ≠ ascii ".") body
    rw [hdrop] at hdot hsplit
    have hmap : body.map stuff = (upToDot body).map stuff ++ stuff d :: ds.map stuff := by
      rw [← List.map_cons, ← List.map_append, hsplit]
    refine ⟨stuff d, ds.map stuff ++ ascii "." :: rest, by simpa using hdot, ?_⟩
    simp [messageLines, dataLines, hmap]

theorem trim_ne_of_mem_dataLines (hcolon : ∀ l ∈ headers, 58 ∈ l) :
    ∀ l ∈ dataLines headers body, trim l ≠ ascii "." := by
  intro l hl
  simp only [dataLines, List.mem_append, List.mem_cons, List.mem_map] at hl
  rcases hl with hl | rfl | ⟨l', hl', rfl⟩
  · intro heq
    have hmem := mem_trim (hcolon l hl) (by decide)
    rw [heq] at hmem
    exact absurd hmem (by decide)
  · decide
  · simpa using List.mem_takeWhile_imp (p := fun l => trim (stuff l) ≠ ascii ".") hl'

/-- The state at the first line with a single dot. -/
theorem foldl_dataLines {st : Session} (hbegun : Begun st) (hcolon : ∀ l ∈ headers, 58 ∈ l) :
    (dataLines headers body).foldl takeData st =
      ((upToDot body).map stuff).foldl takeData { st with headersBlock := headerText headers } := by
  have hblank : ¬Taken [] := by decide
  rw [dataLines, List.foldl_append, foldl_takeData_header hcolon hbegun.header, List.foldl_cons,
    takeData_of_not_taken hblank, hbegun.headers, List.nil_append]

/-- **A message is stored as it was sent** if and only if it is one of those that are:
its data have the subject and the body. -/
theorem dataLines_iff {st : Session} (hbegun : Begun st)
    (hheaders : ∀ l ∈ headers, 58 ∈ l ∧ 10 ∉ l) (hbody : ∀ l ∈ body, 10 ∉ l) :
    (subjectOf ((dataLines headers body).foldl takeData st).headersBlock = headerSubject headers ∧
        ((dataLines headers body).foldl takeData st).bodyBlock = bodyText body) ↔
      Transparent headers body := by
  set st' : Session := { st with headersBlock := headerText headers } with hst'
  have htext : (((upToDot body).map stuff).foldl takeData st').bodyBlock =
      bodyText (keptLines true ((upToDot body).map stuff)) := by
    rw [bodyBlock_foldl, hst', hbegun.header, hbegun.body, List.nil_append]
  have hsubject : (∀ l ∈ body, l ≠ [] ∧ l.head? ≠ some 46 ∧ trim l = l ∧
      l.length ≤ bufferLength) → (∀ l ∈ body.head?, 58 ∉ l) →
      subjectOf (((upToDot body).map stuff).foldl takeData st').headersBlock =
        headerSubject (headers.filter fun l => Recognised l) := by
    intro hlines hfirst
    have hlike : BodyLike st'.inHeaderSection body :=
      hbegun.header ▸ bodyLike_of_lines hlines hfirst
    rw [upToDot_eq hlines, map_stuff hlines, (foldl_takeData_body hlike).2, hst',
      subjectOf_headerText fun l hl => (hheaders l hl).2]
  rw [foldl_dataLines hbegun fun l hl => (hheaders l hl).1, htext, kept_body_iff hbody]
  constructor
  · rintro ⟨hused, hlines, hfirst⟩
    exact ⟨hlines, hfirst, (hsubject hlines hfirst).symm.trans hused⟩
  · rintro ⟨hlines, hfirst, hused⟩
    exact ⟨(hsubject hlines hfirst).trans hused, hlines, hfirst⟩

/-- **A message in a session**, behind any text that ends with the acceptance of `DATA`
and before any other: the recipients at `localhost` get its body under its subject if
and only if there are none or it is one of those that are stored as they were sent. -/
theorem delivered_iff (x : Bool) (moments : ℕ → Moment) {received : List Bytes} {before t : Bytes}
    {st : Session} (hheaders : ∀ l ∈ headers, 58 ∈ l ∧ 10 ∉ l) (hbody : ∀ l ∈ body, 10 ∉ l)
    (hreceived : ∀ chunk ∈ received, chunk ≠ [])
    (htext : (received.map cString).flatten =
      before ++ (crlf ++ (lineText (messageLines headers body) ++ t)))
    (hrun : (run (step x moments) 0 .fresh (pieces before)).2 = some st) (hbegun : Begun st) :
    deliveries (run (step x moments) 0 .fresh (pieces before)).1 ++
        deliveredTo st (headerSubject headers) (bodyText body) <+:
      deliveries (handleClient x moments received) ↔
        st.validRecipients = [] ∨ Transparent headers body := by
  have hlines : linesReceived received =
      pieces before ++ (messageLines headers body ++ linesOf t) := by
    rw [linesReceived, htext, linesOf_append_crlf,
      linesOf_lineText (notMem_messageLines (fun l hl => (hheaders l hl).2) hbody)]
  obtain ⟨dot, rest, hdot, hsplit⟩ := exists_dot headers body (linesOf t)
  have hout : run (step x moments) 0 .fresh (pieces before) =
      ((run (step x moments) 0 .fresh (pieces before)).1, some st) := Prod.ext rfl hrun
  obtain ⟨later, hlater⟩ := @deliveries_upTo moments st x
    (0 + (pieces before).length) hbegun.mode _
    (trim_ne_of_mem_dataLines fun l hl => (hheaders l hl).1) dot hdot rest
  have hwelcome : ∀ out, deliveries (welcome :: out) = deliveries out := fun _ => rfl
  rw [handleClient_eq_run hreceived, hlines, run_append hout, hwelcome, deliveries_append, hsplit,
    hlater, List.prefix_append_right_inj, deliveredTo_prefix_iff,
    dataLines_iff hbegun hheaders hbody]

end Message

/-- The commands before a message for a recipient at `localhost`. -/
def envelopeText : Bytes := ascii "MAIL FROM:<a@localhost>\r\nRCPT TO:<b@localhost>\r\nDATA"

/-- The state after them. -/
def envelopeState : Session :=
  { Session.fresh with senderEmail := ascii "a@localhost",
                       validRecipients := [ascii "b@localhost"],
                       isDataRecptMode := true }

theorem run_envelopeText :
    (run (step false fun _ => .idle) 0 .fresh (pieces envelopeText)).2 = some envelopeState := by
  decide +kernel

theorem begun_envelopeState : Begun envelopeState := ⟨rfl, rfl, rfl, rfl⟩

/-- All that is sent of a message with headers and a body. -/
def messageText (headers body : List Bytes) : Bytes :=
  envelopeText ++ (crlf ++ (lineText (messageLines headers body) ++ []))

/-- A message of two lines is stored as it was sent. -/
theorem delivered_two_lines :
    deliveries (run (step false fun _ => .idle) 0 .fresh (pieces envelopeText)).1 ++
        deliveredTo envelopeState (headerSubject [ascii "subject-like: x", ascii "Subject: s"])
          (bodyText [ascii "a", ascii "b: c"]) <+:
      deliveries (handleClient false (fun _ => .idle)
        [messageText [ascii "subject-like: x", ascii "Subject: s"] [ascii "a", ascii "b: c"]]) :=
  (delivered_iff (t := []) false _ (by decide) (by decide) (by decide) (by decide +kernel)
    run_envelopeText begun_envelopeState).mpr (Or.inr ⟨by decide, by decide, by decide⟩)

/-- An empty line between two others is lost. -/
theorem delivered_without_blank :
    Received (messageText [ascii "Subject: s"] [ascii "a", [], ascii "b"])
        [messageText [ascii "Subject: s"] [ascii "a", [], ascii "b"]] ∧
      (run (step false fun _ => .idle) 0 .fresh (pieces envelopeText)).2 = some envelopeState ∧
      ¬(deliveries (run (step false fun _ => .idle) 0 .fresh (pieces envelopeText)).1 ++
          deliveredTo envelopeState (headerSubject [ascii "Subject: s"])
            (bodyText [ascii "a", [], ascii "b"]) <+:
        deliveries (handleClient false (fun _ => .idle)
          [messageText [ascii "Subject: s"] [ascii "a", [], ascii "b"]])) ∧
      deliveries (handleClient false (fun _ => .idle)
          [messageText [ascii "Subject: s"] [ascii "a", [], ascii "b"]]) =
        deliveredTo envelopeState (ascii "s") (ascii "a\nb\n") :=
  ⟨⟨by decide +kernel, by decide +kernel, by decide +kernel⟩, run_envelopeText,
    by decide +kernel, by decide +kernel⟩

end Smtp

end PennCloud
