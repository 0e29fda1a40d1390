import PennCloud.Frontend.Mail.Service
import PennCloud.Frontend.Mail.Transactions

/-!
# From the web mail to the mail server

A message written on the web for a recipient elsewhere is handed over to the mail
server (`PennCloud.sendViaSMTP`), which reads it line by line and cuts it up
again. What is written is the user's text as it is: no character of it is escaped,
no dot doubled and no length looked at. And the server is not an exact reader
either: it trims lines, drops blank ones and those that are too long, and takes
lines with a colon for headers until one comes without.

`PennCloud.Smtp.handsOver_iff` says exactly which messages survive this
(`PennCloud.Smtp.Passes`). That such a message arrives is a computation along its
lines. That no other one does is a matter of counting: the text that arrives as the
body is never longer than the body that was sent, and of the same length only if
every line was taken as it is (`PennCloud.Smtp.length_bodyBlock`).
-/

namespace PennCloud

namespace Smtp

open Wire Calls Text Lines

/-! ### Lines -/

/-- A text without the end of a line. -/
def OneLine (s : Bytes) : Prop := cut crlf s = none

instance (s : Bytes) : Decidable (OneLine s) := inferInstanceAs (Decidable (_ = _))

theorem oneLine_iff {s : Bytes} : OneLine s ↔ ¬crlf <:+: s := by
  rw [OneLine, ← isSome_cut, Option.not_isSome_iff_eq_none]

/-- What follows a character that is not the end of a line. -/
theorem oneLine_append_cons {s t : Bytes} {c : UInt8} (hc : c ∉ crlf) (hs : OneLine s)
    (ht : OneLine (c :: t)) : OneLine (s ++ c :: t) := by
  rw [oneLine_iff] at hs ht ⊢
  exact fun h => (infix_append_cons hc h).elim hs ht

/-- The first end of a line is looked for behind a text that neither contains one
nor begins one. -/
theorem cut_crlf_append {s : Bytes} (hs : OneLine s) (hlast : s.getLast? ≠ some 13) (t : Bytes) :
    cut crlf (s ++ t) = (cut crlf t).map fun r => (s ++ r.1, r.2) := by
  induction s with
  | nil => simp
  | cons x s ih =>
    have hx : ¬crlf <+: x :: s := fun hw => oneLine_iff.mp hs hw.isInfix
    have hx' : ¬crlf <+: x :: (s ++ t) := by
      intro hw
      obtain ⟨rfl, hlf⟩ := List.cons_prefix_cons.mp hw
      rcases s with _ | ⟨y, s⟩
      · exact hlast rfl
      · obtain ⟨rfl, -⟩ := List.cons_prefix_cons.mp hlf
        exact hx (List.prefix_append crlf s)
    have hrest : OneLine s := by
      rw [OneLine, cut_cons hx, Option.map_eq_none_iff] at hs
      exact hs
    have hlast' : s.getLast? ≠ some 13 := by
      rcases s with _ | ⟨y, s⟩
      · simp
      · rwa [List.getLast?_cons_cons] at hlast
    rw [List.cons_append, cut_cons hx', ih hrest hlast', Option.map_map]
    rfl

/-- All pieces of a text that is cut at the ends of lines; the last one may be
empty. -/
def pieces (text : Bytes) : List Bytes := linesOf text ++ [(takeLines crlf text).2]

/-- The lines of a text, whether or not its last line has an end. -/
def bodyLines (text : Bytes) : List Bytes :=
  linesOf text ++ if (takeLines crlf text).2 = [] then [] else [(takeLines crlf text).2]

/-- A text that is ended is its pieces. -/
theorem linesOf_append_crlf (s t : Bytes) : linesOf (s ++ (crlf ++ t)) = pieces s ++ linesOf t := by
  have hcut := cut_append_crlf (cut_takeLines crlf_ne_nil s) t
  rw [linesOf, takeLines_append crlf_ne_nil, takeLines_of_some crlf_ne_nil hcut]
  simp only [pieces, linesOf, List.append_assoc, List.singleton_append]

theorem pieces_of_oneLine {s : Bytes} (h : OneLine s) : pieces s = [s] := by
  rw [pieces, linesOf, takeLines_of_none h]
  rfl

theorem pieces_append_crlf (s t : Bytes) : pieces (s ++ (crlf ++ t)) = pieces s ++ pieces t := by
  have hcut := cut_append_crlf (cut_takeLines crlf_ne_nil s) t
  rw [pieces, linesOf_append_crlf, takeLines_append crlf_ne_nil,
    takeLines_of_some crlf_ne_nil hcut]
  simp only [pieces, List.append_assoc]

/-- A text all of whose pieces have a colon, behind a line that has one: the two
may be joined to a single end of a line by a final CR. -/
theorem colon_pieces {s t : Bytes} (hs : OneLine s) (hcolon : 58 ∈ s)
    (ht : ∀ l ∈ pieces t, 58 ∈ l) : ∀ l ∈ pieces (s ++ 10 :: t), 58 ∈ l := by
  by_cases hlast : s.getLast? = some 13
  · obtain ⟨s', rfl⟩ := List.getLast?_eq_some_iff.mp hlast
    have hjoin : s' ++ [13] ++ 10 :: t = s' ++ (crlf ++ t) := by simp [crlf]
    have hs' : OneLine s' := by
      rw [oneLine_iff] at hs ⊢
      exact fun h => hs (h.trans (List.prefix_append s' [13]).isInfix)
    have hcolon' : 58 ∈ s' := by simpa using hcolon
    intro l hl
    rw [hjoin, pieces_append_crlf, pieces_of_oneLine hs'] at hl
    rcases List.mem_cons.mp hl with rfl | hl
    · exact hcolon'
    · exact ht l hl
  · have hcut := cut_crlf_append (hs) hlast (10 :: t)
    have hlf : ¬crlf <+: 10 :: t := fun h => absurd (List.cons_prefix_cons.mp h).1 (by decide)
    rw [cut_cons hlf, Option.map_map] at hcut
    intro l hl
    rcases ht' : cut crlf t with _ | ⟨p, q⟩
    · rw [ht', Option.map_none] at hcut
      rw [pieces_of_oneLine hcut, List.mem_singleton] at hl
      rw [hl]
      exact List.mem_append_left _ hcolon
    · rw [ht', Option.map_some] at hcut
      have htext : pieces (s ++ 10 :: t) = (s ++ 10 :: p) :: pieces q := by
        rw [pieces, linesOf, takeLines_of_some crlf_ne_nil hcut]
        rfl
      have htext' : pieces t = p :: pieces q := by
        rw [pieces, linesOf, takeLines_of_some crlf_ne_nil ht']
        rfl
      rw [htext] at hl
      rcases List.mem_cons.mp hl with rfl | hl
      · exact List.mem_append_left _ hcolon
      · exact ht l (htext' ▸ List.mem_cons_of_mem p hl)

/-- What is in a line is in the text. -/
theorem mem_of_mem_linesOf {s l : Bytes} {b : UInt8} (hl : l ∈ linesOf s) (hb : b ∈ l) : b ∈ s := by
  induction hlen : s.length using Nat.strong_induction_on generalizing s with
  | _ k ih =>
    rcases hcut : cut crlf s with _ | ⟨p, q⟩
    · rw [linesOf, takeLines_of_none hcut] at hl
      exact absurd hl List.not_mem_nil
    · rw [linesOf, takeLines_of_some crlf_ne_nil hcut] at hl
      rw [eq_append_of_cut hcut]
      rcases List.mem_cons.mp hl with rfl | hl
      · exact List.mem_append_left _ (List.mem_append_left _ hb)
      · exact List.mem_append_right _
          (ih _ (hlen ▸ length_lt_of_cut crlf_ne_nil hcut) hl rfl)

/-- What is in a text is in one of its lines or in their ends. -/
theorem mem_bodyLines {s : Bytes} {b : UInt8} (hb : b ∈ s) (hcrlf : b ∉ crlf) :
    ∃ l ∈ bodyLines s, b ∈ l := by
  induction hlen : s.length using Nat.strong_induction_on generalizing s with
  | _ k ih =>
    rcases hcut : cut crlf s with _ | ⟨p, q⟩
    · refine ⟨s, ?_, hb⟩
      have hne : s ≠ [] := List.ne_nil_of_mem hb
      simp [bodyLines, linesOf, takeLines_of_none hcut, hne]
    · have hlines : bodyLines s = p :: bodyLines q := by
        simp only [bodyLines, linesOf, takeLines_of_some crlf_ne_nil hcut, List.cons_append]
      rw [eq_append_of_cut hcut, List.append_assoc, List.mem_append, List.mem_append] at hb
      rw [hlines]
      rcases hb with hb | hb | hb
      · exact ⟨p, List.mem_cons_self, hb⟩
      · exact absurd hb hcrlf
      · obtain ⟨l, hl, hbl⟩ := ih _ (hlen ▸ length_lt_of_cut crlf_ne_nil hcut) hb rfl
        exact ⟨l, List.mem_cons_of_mem p hl, hbl⟩

/-! ### Trimming -/

theorem trim_isInfix (s : Bytes) : trim s <:+: s :=
  (List.rdropWhile_prefix isSpace (ltrim s)).isInfix.trans (List.dropWhile_suffix isSpace).isInfix

theorem trim_eq_self_of_length {s : Bytes} (h : s.length ≤ (trim s).length) : trim s = s :=
  (trim_isInfix s).sublist.eq_of_length_le h

/-- A text that neither begins nor ends with a blank. -/
theorem trim_of_ends {a b : UInt8} (ha : isSpace a = false) (hb : isSpace b = false) (s : Bytes) :
    trim (a :: (s ++ [b])) = a :: (s ++ [b]) := by
  have hl : ltrim (a :: (s ++ [b])) = a :: (s ++ [b]) := by
    rw [ltrim, List.dropWhile_cons_of_neg (by simp [ha])]
  have hr : rtrim ((a :: s) ++ [b]) = (a :: s) ++ [b] := by
    rw [rtrim, List.rdropWhile_concat_neg _ _ _ (by simp [hb])]
  rw [trim, hl]
  exact hr

/-- Trimming twice is trimming. -/
theorem trim_trim (s : Bytes) : trim (trim s) = trim s := by
  have hl : ltrim (trim s) = trim s := by
    rcases h : trim s with _ | ⟨a, t⟩
    · rfl
    · obtain ⟨t', ht'⟩ : trim s <+: ltrim s := List.rdropWhile_prefix isSpace (ltrim s)
      have hhead := List.head?_dropWhile_not isSpace s
      have hs : s.dropWhile isSpace = a :: (t ++ t') := by
        rw [← ltrim, ← ht', h]
        rfl
      rw [hs] at hhead
      have ha : isSpace a = false := by simpa using hhead
      rw [ltrim, List.dropWhile_cons_of_neg (by simp [ha])]
  rw [trim, hl]
  exact List.rdropWhile_idempotent isSpace (ltrim s)

/-! ### What a session executes and completes -/

/-- The commands that were executed. -/
def commands (es : List Talk) : List Bytes :=
  es.filterMap fun e =>
    if Taken e.line ∧ e.before.isDataRecptMode = false then some (trim e.line) else none

/-- The states in which messages were completed. -/
def completes (es : List Talk) : List Session :=
  es.filterMap fun e => if event e = .completed then some e.before else none

section Evaluate

variable {moments : ℕ → Moment} {n : ℕ} {st st' : Session} {line : Bytes} {lines : List Bytes}

/-- What is executed and completed from a state on. -/
def outcome (moments : ℕ → Moment) (n : ℕ) (st : Session) (lines : List Bytes) :
    List Bytes × List Session :=
  (commands (exchanges (step true moments) n st lines),
    completes (exchanges (step true moments) n st lines))

theorem outcome_cons :
    outcome moments n st (line :: lines) =
      (commands [Exchange.of (step true moments) n st line] ++
          (((step true moments n st line).2.map fun st' => outcome moments (n + 1) st' lines).getD
            ([], [])).1,
        completes [Exchange.of (step true moments) n st line] ++
          (((step true moments n st line).2.map fun st' => outcome moments (n + 1) st' lines).getD
            ([], [])).2) := by
  rcases h : (step true moments n st line).2 with _ | st'
  · simp [outcome, exchanges, h, commands, completes]
  · simp only [outcome, exchanges, h, commands, completes, Option.map_some, Option.getD_some,
      ← List.filterMap_append, List.singleton_append]

/-- A line that is not looked at. -/
theorem outcome_skip (h : ¬Taken line) :
    outcome moments n st (line :: lines) = outcome moments (n + 1) st lines := by
  rw [outcome_cons]
  simp [step, handleLine_of_not_taken h, commands, completes, Exchange.of, event, h]

/-- Only in DATA mode a message is completed. -/
theorem completes_of_not_mode (hmode : st.isDataRecptMode = false) :
    completes [Exchange.of (step true moments) n st line] = [] := by
  have hevent : event (Exchange.of (step true moments) n st line) ≠ .completed := by
    intro hevent
    have hstep : Transition true st .completed (handleLine true (moments n) st line).2 :=
      hevent ▸ transition_handleLine
    rcases hafter : (handleLine true (moments n) st line).2 with _ | st' <;> rw [hafter] at hstep
    · cases hstep
    · cases hstep with
      | completed hmode' => exact absurd (hmode.symm.trans hmode') (by decide)
  simp only [completes, List.filterMap_cons, if_neg hevent, List.filterMap_nil]

theorem commands_of_not_mode (h : Taken line) (hmode : st.isDataRecptMode = false) :
    commands [Exchange.of (step true moments) n st line] = [trim line] := by
  simp [commands, Exchange.of, h, hmode]

theorem commands_of_mode (hmode : st.isDataRecptMode = true) :
    commands [Exchange.of (step true moments) n st line] = [] := by
  simp [commands, Exchange.of, hmode]

/-- A command after which the session goes on. -/
theorem outcome_command (h : Taken line) (hmode : st.isDataRecptMode = false)
    (hst : (command st true (trim line)).2 = some st') :
    outcome moments n st (line :: lines) =
      (trim line :: (outcome moments (n + 1) st' lines).1,
        (outcome moments (n + 1) st' lines).2) := by
  have hstep : (step true moments n st line).2 = some st' := by
    rw [step, handleLine_command h hmode]
    exact hst
  rw [outcome_cons, completes_of_not_mode hmode, commands_of_not_mode h hmode, hstep]
  rfl

/-- What is executed and completed after a command. -/
theorem outcome_after (h : Taken line) (hmode : st.isDataRecptMode = false)
    (hst : (command st true (trim line)).2 = some st') {c : Bytes} {cs : List Bytes}
    {sts : List Session} (hout : outcome moments n st (line :: lines) = (c :: cs, sts)) :
    outcome moments (n + 1) st' lines = (cs, sts) := by
  rw [outcome_command h hmode hst] at hout
  obtain ⟨hcommands, hcompletes⟩ := Prod.mk.inj hout
  exact Prod.ext (List.cons.inj hcommands).2 hcompletes

/-- A command that ends the session. -/
theorem outcome_quit (h : Taken line) (hmode : st.isDataRecptMode = false)
    (hst : (command st true (trim line)).2 = none) :
    outcome moments n st (line :: lines) = ([trim line], []) := by
  have hstep : (step true moments n st line).2 = none := by
    rw [step, handleLine_command h hmode]
    exact hst
  rw [outcome_cons, completes_of_not_mode hmode, commands_of_not_mode h hmode, hstep]
  rfl

/-- A line of a message. -/
def takeData (st : Session) (line : Bytes) : Session :=
  if Taken line then dataLine st (trim line) else st

theorem sameEnvelope_takeData (st : Session) (line : Bytes) :
    SameEnvelope st (takeData st line) := by
  rw [takeData]
  split_ifs
  · exact sameEnvelope_dataLine st (trim line)
  · exact .refl st

theorem outcome_data (hmode : st.isDataRecptMode = true) (hdot : trim line ≠ ascii ".") :
    outcome moments n st (line :: lines) = outcome moments (n + 1) (takeData st line) lines := by
  by_cases h : Taken line
  · have hstep : (step true moments n st line).2 = some (takeData st line) := by
      rw [step, handleLine_data h hmode hdot, takeData, if_pos h]
    have hevent : completes [Exchange.of (step true moments) n st line] = [] := by
      simp [completes, Exchange.of, event, h, hmode, hdot]
    rw [outcome_cons, hevent, commands_of_mode hmode, hstep]
    rfl
  · rw [outcome_skip h, takeData, if_neg h]

/-- The lines of a message, up to the dot. -/
theorem outcome_takeData (hmode : st.isDataRecptMode = true) {ls : List Bytes}
    (hdot : ∀ l ∈ ls, trim l ≠ ascii ".") :
    outcome moments n st (ls ++ lines) =
      outcome moments (n + ls.length) (ls.foldl takeData st) lines := by
  induction ls generalizing n st with
  | nil => rfl
  | cons l ls ih =>
    have hnext : (takeData st l).isDataRecptMode = true :=
      (sameEnvelope_takeData st l).mode.trans hmode
    rw [List.cons_append, outcome_data hmode (hdot l List.mem_cons_self),
      ih hnext fun l' hl' => hdot l' (List.mem_cons_of_mem l hl'), List.foldl_cons,
      List.length_cons, Nat.add_assoc, Nat.add_comm 1]

/-- The dot. -/
theorem outcome_dot (hmode : st.isDataRecptMode = true) (hdot : trim line = ascii ".")
    (hrcpt : st.nonLocalRecipients ≠ [] ∨ st.validRecipients ≠ []) :
    outcome moments n st (line :: lines) =
      ((outcome moments (n + 1) (endOfData (moments n) st true).2 lines).1,
        st :: (outcome moments (n + 1) (endOfData (moments n) st true).2 lines).2) := by
  have htaken : Taken line := by
    rw [Taken, hdot]
    decide
  have hevent : event (Exchange.of (step true moments) n st line) = .completed := by
    have hstep : Transition true st (if answered "250" (endOfData (moments n) st true).1 = true
        then .completed else .dropped) (some (endOfData (moments n) st true).2) :=
      transition_endOfData hmode
    have hafter : event (Exchange.of (step true moments) n st line) =
        if answered "250" (endOfData (moments n) st true).1 = true then .completed
        else .dropped := by
      simp only [event, Exchange.of, step, handleLine_dot htaken hmode hdot,
        if_neg (not_not.mpr htaken), hmode, if_true, if_pos hdot]
    rw [← hafter] at hstep
    rcases hev : answered "250" (endOfData (moments n) st true).1 with _ | _
    · rw [hafter, hev] at hstep
      generalize hnext : (endOfData (moments n) st true).2 = st'' at hstep
      cases hstep with
      | dropped _ hvalid hnonLocal =>
        exact hrcpt.elim (fun h => absurd hnonLocal h) (fun h => absurd hvalid h)
    · rw [hafter, hev]
      rfl
  have hstep : (step true moments n st line).2 = some (endOfData (moments n) st true).2 := by
    rw [step, handleLine_dot htaken hmode hdot]
  have hcompletes : completes [Exchange.of (step true moments) n st line] = [st] := by
    simp only [completes, List.filterMap_cons, if_pos hevent, List.filterMap_nil]
    rfl
  rw [outcome_cons, hcompletes, commands_of_mode hmode, hstep]
  rfl

end Evaluate

/-! ### The lines of a message -/

/-- What is not a blank is not trimmed away. -/
theorem mem_trim {s : Bytes} {b : UInt8} (hb : b ∈ s) (hspace : isSpace b = false) :
    b ∈ trim s := by
  have hl : b ∈ ltrim s := by
    rw [← List.takeWhile_append_dropWhile (p := isSpace) (l := s), List.mem_append] at hb
    refine hb.resolve_left fun h => ?_
    exact absurd (List.mem_takeWhile_imp h) (by simp [hspace])
  rw [← List.rdropWhile_append_rtakeWhile (p := isSpace) (l := ltrim s), List.mem_append] at hl
  refine hl.resolve_right fun h => ?_
  exact absurd (List.mem_rtakeWhile_imp h) (by simp [hspace])

/-- A line with a colon does not end the data. -/
theorem trim_ne_dot {l : Bytes} (h : 58 ∈ l) : trim l ≠ ascii "." := by
  intro heq
  have hmem := mem_trim h (by decide)
  rw [heq] at hmem
  exact absurd hmem (by decide)

section TakeData

variable {st : Session} {line : Bytes}

theorem takeData_of_not_taken (h : ¬Taken line) : takeData st line = st := if_neg h

theorem takeData_header (hin : st.inHeaderSection = true) (h : Taken line)
    (hcolon : 58 ∈ trim line) :
    takeData st line =
      { st with headersBlock := st.headersBlock ++ trim line ++ ascii "\n" } := by
  have hne : (trim line).isEmpty = false := by simpa using h.1
  simp only [takeData, if_pos h, dataLine, hin, if_true, trim_trim, hne, Bool.false_eq_true,
    if_false, List.contains_iff_mem.mpr hcolon]

theorem takeData_body (h : Taken line) (hcolon : st.inHeaderSection = true → 58 ∉ trim line) :
    takeData st line =
      { st with inHeaderSection := false,
                bodyBlock := st.bodyBlock ++ trim line ++ ascii "\n" } := by
  have hne : (trim line).isEmpty = false := by simpa using h.1
  rcases hin : st.inHeaderSection with _ | _
  · simp only [takeData, if_pos h, dataLine, hin, Bool.false_eq_true, if_false]
  · have hcontains : (trim line).contains 58 = false := by simpa using hcolon hin
    simp only [takeData, if_pos h, dataLine, hin, if_true, trim_trim, hne, Bool.false_eq_true,
      if_false, hcontains]

/-- A line is added to the body, or the body stays as it is. -/
theorem takeData_cases (st : Session) (line : Bytes) :
    (takeData st line).bodyBlock = st.bodyBlock ∨
      (Taken line ∧ (st.inHeaderSection = true → 58 ∉ trim line) ∧
        takeData st line = { st with inHeaderSection := false,
                                     bodyBlock := st.bodyBlock ++ trim line ++ ascii "\n" }) := by
  by_cases h : Taken line
  · by_cases hcolon : st.inHeaderSection = true → 58 ∉ trim line
    · exact Or.inr ⟨h, hcolon, takeData_body h hcolon⟩
    · obtain ⟨hin, hmem⟩ := Classical.not_imp.mp hcolon
      rw [takeData_header hin h (not_not.mp hmem)]
      exact Or.inl rfl
  · rw [takeData_of_not_taken h]
    exact Or.inl rfl

end TakeData

/-- The headers that lines are, as far as they are looked at. -/
def headerText (ls : List Bytes) : Bytes :=
  (ls.filter fun l => decide (Taken l)).flatMap fun l => trim l ++ ascii "\n"

/-- Lines with a colon, at the beginning of a message. -/
theorem foldl_takeData_header {ls : List Bytes} (hcolon : ∀ l ∈ ls, 58 ∈ l) {st : Session}
    (hin : st.inHeaderSection = true) :
    ls.foldl takeData st = { st with headersBlock := st.headersBlock ++ headerText ls } := by
  induction ls generalizing st with
  | nil => simp [headerText]
  | cons l ls ih =>
    have hrest : ∀ l ∈ ls, 58 ∈ l := fun l' hl' => hcolon l' (List.mem_cons_of_mem l hl')
    by_cases h : Taken l
    · have hmem := mem_trim (hcolon l List.mem_cons_self) (by decide)
      rw [List.foldl_cons, takeData_header hin h hmem, ih hrest (by exact hin)]
      simp [headerText, h]
    · rw [List.foldl_cons, takeData_of_not_taken h, ih hrest hin]
      simp [headerText, h]

/-- The text of a body. -/
def bodyText (ls : List Bytes) : Bytes := ls.flatMap fun l => l ++ ascii "\n"

/-- Lines that make a body: they are taken as they are, and the first one is not
taken for a header. -/
structure BodyLike (inHeader : Bool) (ls : List Bytes) : Prop where
  taken : ∀ l ∈ ls, Taken l ∧ trim l = l
  first : inHeader = true → ∀ l ∈ ls.head?, 58 ∉ l

theorem BodyLike.tail {inHeader : Bool} {l : Bytes} {ls : List Bytes}
    (h : BodyLike inHeader (l :: ls)) : BodyLike false ls :=
  ⟨fun l' hl' => h.taken l' (List.mem_cons_of_mem l hl'), fun hin => absurd hin (by decide)⟩

theorem foldl_takeData_body {ls : List Bytes} {st : Session}
    (h : BodyLike st.inHeaderSection ls) :
    (ls.foldl takeData st).bodyBlock = st.bodyBlock ++ bodyText ls ∧
      (ls.foldl takeData st).headersBlock = st.headersBlock := by
  induction ls generalizing st with
  | nil => simp [bodyText]
  | cons l ls ih =>
    obtain ⟨htaken, htrim⟩ := h.taken l List.mem_cons_self
    have hcolon : st.inHeaderSection = true → 58 ∉ trim l := by
      intro hin
      rw [htrim]
      exact h.first hin l rfl
    have hnext := takeData_body htaken hcolon
    have hrest : BodyLike (takeData st l).inHeaderSection ls := by
      rw [hnext]
      exact h.tail
    obtain ⟨hbody, hheaders⟩ := ih hrest
    rw [List.foldl_cons, hbody, hheaders, hnext, htrim]
    exact ⟨by simp [bodyText], rfl⟩

/-- The number of characters of a body. -/
def bodySize (ls : List Bytes) : ℕ := (ls.map fun l => l.length + 1).sum

theorem length_bodyText (ls : List Bytes) : (bodyText ls).length = bodySize ls := by
  induction ls with
  | nil => rfl
  | cons l ls ih =>
    have hlf : (ascii "\n").length = 1 := rfl
    simp only [bodyText, bodySize, List.flatMap_cons, List.length_append, List.map_cons,
      List.sum_cons, hlf] at ih ⊢
    omega

/-- **The body does not become longer than what was sent**, and is of the same
length only if all lines are taken as they are. -/
theorem length_bodyBlock (ls : List Bytes) (st : Session) :
    (ls.foldl takeData st).bodyBlock.length ≤ st.bodyBlock.length + bodySize ls ∧
      ((ls.foldl takeData st).bodyBlock.length = st.bodyBlock.length + bodySize ls →
        BodyLike st.inHeaderSection ls) := by
  induction ls generalizing st with
  | nil => exact ⟨le_refl _, fun _ => ⟨by simp, by simp⟩⟩
  | cons l ls ih =>
    obtain ⟨hle, heq⟩ := ih (takeData st l)
    have hsize : bodySize (l :: ls) = l.length + 1 + bodySize ls := by simp [bodySize]
    rw [List.foldl_cons, hsize]
    rcases takeData_cases st l with hsame | ⟨htaken, hcolon, hnext⟩
    · rw [hsame] at hle
      refine ⟨by omega, fun h => ?_⟩
      omega
    · have hlen : (takeData st l).bodyBlock.length =
          st.bodyBlock.length + ((trim l).length + 1) := by
        have hlf : (ascii "\n").length = 1 := rfl
        simp only [hnext, List.length_append, hlf, Nat.add_assoc]
      have htrim := (trim_isInfix l).length_le
      refine ⟨by omega, fun h => ?_⟩
      have hself : trim l = l := trim_eq_self_of_length (by omega)
      have hrest := heq (by omega)
      refine ⟨fun l' hl' => ?_, fun hin l' hl' => ?_⟩
      · rcases List.mem_cons.mp hl' with rfl | hl'
        · exact ⟨htaken, hself⟩
        · exact hrest.taken l' hl'
      · obtain rfl : l = l' := by simpa using hl'
        exact hself ▸ hcolon hin

/-! ### The message that is handed over -/

/-- The headers that `sendViaSMTP` writes. -/
def handoffHeaders (s r subject date : Bytes) : Bytes :=
  ascii "From: " ++ s ++ ascii "\n" ++ ascii "To: " ++ r ++ ascii "\n" ++ ascii "Subject: " ++
    subject ++ ascii "\n" ++ ascii "Date: " ++ date

/-- The line with the sender. -/
def mailLine (s : Bytes) : Bytes := ascii "MAIL FROM:<" ++ s ++ ascii ">"

/-- The line with the recipient. -/
def rcptLine (r : Bytes) : Bytes := ascii "RCPT TO:<" ++ r ++ ascii ">"

/-- All that `sendViaSMTP` writes. -/
def handoff (s r subject body date : Bytes) : Bytes := (sendViaSMTP s r subject body date).flatten

/-- The lines of what is written. -/
def handoffLines (s r subject body date : Bytes) : List Bytes :=
  ascii "HELO localhost" :: (pieces (mailLine s) ++ (pieces (rcptLine r) ++
    (ascii "DATA" :: (pieces (handoffHeaders s r subject date) ++
      ([] :: (pieces body ++ [ascii ".", ascii "QUIT"]))))))

theorem linesOf_handoff (s r subject body date : Bytes) :
    linesOf (handoff s r subject body date) = handoffLines s r subject body date := by
  have htext : handoff s r subject body date =
      ascii "HELO localhost" ++ (crlf ++ (mailLine s ++ (crlf ++ (rcptLine r ++ (crlf ++
        (ascii "DATA" ++ (crlf ++ (handoffHeaders s r subject date ++ (crlf ++ ([] ++ (crlf ++
          (body ++ (crlf ++ (ascii "." ++ (crlf ++ (ascii "QUIT" ++ crlf)))))))))))))))) := by
    simp only [handoff, sendViaSMTP, mailLine, rcptLine, handoffHeaders, List.flatten_cons,
      List.flatten_nil, List.append_assoc, List.append_nil, List.nil_append]
  have hhelo : pieces (ascii "HELO localhost") = [ascii "HELO localhost"] := by decide
  have hdata : pieces (ascii "DATA") = [ascii "DATA"] := by decide
  have hblank : pieces [] = [[]] := by decide
  have hdot : pieces (ascii ".") = [ascii "."] := by decide
  have hquit : linesOf (ascii "QUIT" ++ crlf) = [ascii "QUIT"] := by decide
  rw [htext]
  simp only [linesOf_append_crlf, hhelo, hdata, hblank, hdot, hquit, handoffLines,
    List.singleton_append]

section Commands

variable {st : Session}

theorem trim_mailLine (s : Bytes) : trim (mailLine s) = mailLine s := by
  have hends : mailLine s = 77 :: ((ascii "AIL FROM:<" ++ s) ++ [62]) := rfl
  rw [hends]
  exact trim_of_ends rfl rfl _

theorem trim_rcptLine (r : Bytes) : trim (rcptLine r) = rcptLine r := by
  have hends : rcptLine r = 82 :: ((ascii "CPT TO:<" ++ r) ++ [62]) := rfl
  rw [hends]
  exact trim_of_ends rfl rfl _

/-- An argument in angle brackets. -/
theorem bracketed_cons (s : Bytes) : bracketed (60 :: (s ++ [62])) = true := by
  simp [bracketed, List.getLast?_cons]

theorem unbracket_cons (s : Bytes) : unbracket (60 :: (s ++ [62])) = unbracket s := by
  simp [unbracket]

/-- Nothing is taken away exactly if there are no angle brackets. -/
theorem unbracket_eq_self {s : Bytes} : unbracket s = s ↔ 60 ∉ s ∧ 62 ∉ s := by
  rw [unbracket, List.filter_filter, List.filter_eq_self]
  simp only [Bool.and_eq_true, decide_eq_true_eq]
  refine ⟨fun h => ⟨fun hmem => (h _ hmem).2 rfl, fun hmem => (h _ hmem).1 rfl⟩, ?_⟩
  rintro ⟨h60, h62⟩ b hb
  exact ⟨fun h => h62 (h ▸ hb), fun h => h60 (h ▸ hb)⟩

/-- A word, a blank, and what follows. -/
theorem cmdPart_append {w : Bytes} (hw : 32 ∉ w) (m : Bytes) : cmdPart (w ++ 32 :: m) = w := by
  rw [cmdPart, List.takeWhile_append_of_pos]
  · simp
  · intro b hb
    simpa using fun h : b = 32 => hw (h ▸ hb)

theorem messagePart_append {w : Bytes} (hw : 32 ∉ w) (m : Bytes) :
    messagePart (w ++ 32 :: m) = m := by
  rw [messagePart, cmdPart_append hw, if_pos (by simp)]
  simp

theorem argument_append (keyword s : Bytes) :
    argument keyword (keyword ++ 60 :: (s ++ [62])) = 60 :: (s ++ [62]) := by
  rw [argument, List.drop_left]
  exact trim_of_ends rfl rfl s

theorem command_mailLine (s : Bytes) :
    (command st true (mailLine s)).2 =
      some { st with senderEmail := unbracket s, validRecipients := [],
                     nonLocalRecipients := [] } := by
  have hmessage : messagePart (mailLine s) = ascii "FROM:" ++ 60 :: (s ++ [62]) :=
    messagePart_append (w := ascii "MAIL") (by decide) _
  have hverb : Verb.ofWord (cmdPart (mailLine s)) = .mail := rfl
  have hfrom : (ascii "FROM:").isPrefixOf (ascii "FROM:" ++ 60 :: (s ++ [62])) = true := rfl
  simp only [command, hverb, mailFrom, hmessage, hfrom, if_true, argument_append, bracketed_cons,
    unbracket_cons]

/-- `RCPT` adds a recipient, to one of the lists, if there is a sender. -/
theorem command_rcptLine (r : Bytes) :
    (command st true (rcptLine r)).2 =
      some (if st.senderEmail = [] then st
        else if isLocal (unbracket r) then
          { st with validRecipients := st.validRecipients ++ [unbracket r] }
        else { st with nonLocalRecipients := st.nonLocalRecipients ++ [unbracket r] }) := by
  have hmessage : messagePart (rcptLine r) = ascii "TO:" ++ 60 :: (r ++ [62]) :=
    messagePart_append (w := ascii "RCPT") (by decide) _
  have hverb : Verb.ofWord (cmdPart (rcptLine r)) = .rcpt := rfl
  have hto : (ascii "TO:").isPrefixOf (ascii "TO:" ++ 60 :: (r ++ [62])) = true := rfl
  simp only [command, hverb, rcptTo, hmessage, hto, if_true, argument_append, bracketed_cons,
    unbracket_cons, List.isEmpty_iff]
  split_ifs <;> rfl

/-- With a sender, the recipient comes into one of the lists. -/
theorem command_rcptLine_of_ne (r : Bytes) (hsender : st.senderEmail ≠ [])
    (hvalid : st.validRecipients = []) (hnonLocal : st.nonLocalRecipients = []) :
    ∃ valid nonLocal, valid ++ nonLocal = [unbracket r] ∧ (nonLocal ≠ [] ∨ valid ≠ []) ∧
      (command st true (rcptLine r)).2 =
        some { st with validRecipients := valid, nonLocalRecipients := nonLocal } := by
  rw [command_rcptLine, if_neg hsender]
  by_cases hlocal : isLocal (unbracket r) = true
  · refine ⟨[unbracket r], [], rfl, Or.inr (List.cons_ne_nil _ _), ?_⟩
    simp only [if_pos hlocal, hvalid, hnonLocal, List.nil_append]
  · refine ⟨[], [unbracket r], rfl, Or.inl (List.cons_ne_nil _ _), ?_⟩
    simp only [if_neg hlocal, hvalid, hnonLocal, List.nil_append]

/-- `DATA` begins a message, if there are a sender and a recipient. -/
theorem command_data :
    (command st true (ascii "DATA")).2 =
      some (if st.senderEmail = [] ∨ (st.validRecipients = [] ∧ st.nonLocalRecipients = []) then st
        else { st with isDataRecptMode := true, inHeaderSection := true, headersBlock := [],
                       bodyBlock := [] }) := by
  have hverb : Verb.ofWord (cmdPart (ascii "DATA")) = .data := rfl
  simp only [command, hverb, data, List.isEmpty_iff, Bool.and_eq_true, Bool.not_true, Bool.false_or]
  by_cases hsender : st.senderEmail = []
  · rw [if_pos hsender, if_pos (Or.inl hsender)]
  · by_cases hrcpt : st.validRecipients = [] ∧ st.nonLocalRecipients = []
    · rw [if_neg hsender, if_pos hrcpt, if_pos (Or.inr hrcpt)]
    · rw [if_neg hsender, if_neg hrcpt, if_neg (not_or.mpr ⟨hsender, hrcpt⟩)]

end Commands

/-- The record of a session says that one message was handed over: nothing but the
five commands was executed, and the one message that was completed is the given
one. -/
structure HandedOver (s r subject body : Bytes) (es : List Talk) : Prop where
  commands : commands es =
    [ascii "HELO localhost", mailLine s, rcptLine r, ascii "DATA", ascii "QUIT"]
  message : ∃ st, completes es = [st] ∧ st.senderEmail = s ∧
    st.validRecipients ++ st.nonLocalRecipients = [r] ∧ subjectOf st.headersBlock = subject ∧
    st.bodyBlock = bodyText (bodyLines body)

/-- What `sendViaSMTP` writes hands over the message, however it arrives at a
server with `-x`. -/
def HandsOver (s r subject body date : Bytes) : Prop :=
  ∀ (moments : ℕ → Moment) (received : List Bytes),
    Received (handoff s r subject body date) received →
    HandedOver s r subject body
      (exchanges (step true moments) 0 .fresh (linesReceived received))

/-- The messages that survive. -/
structure Passes (s r subject body date : Bytes) : Prop where
  /-- There is no NUL. -/
  notMem : 0 ∉ s ∧ 0 ∉ r ∧ 0 ∉ subject ∧ 0 ∉ body
  /-- The sender is not empty, and its line is one line, not too long, with the
  brackets around it alone. -/
  sender : s ≠ [] ∧ OneLine s ∧ (60 ∉ s ∧ 62 ∉ s) ∧ (mailLine s).length ≤ bufferLength
  /-- So is the recipient's. -/
  recipient : OneLine r ∧ (60 ∉ r ∧ 62 ∉ r) ∧ (rcptLine r).length ≤ bufferLength
  /-- The first line with a subject in the headers, as far as they are not too long,
  has this one. -/
  headers : subjectOf (headerText (pieces (handoffHeaders s r subject date))) = subject
  /-- The lines of the body are trimmed, not empty and not too long, and the first
  has no colon. -/
  lines : BodyLike true (bodyLines body)
  /-- None of them is a single dot. -/
  dots : ∀ l ∈ bodyLines body, l ≠ ascii "."

/-! ### What passes is handed over -/

theorem oneLine_append {p s : Bytes} (hp : OneLine p) (hlast : p.getLast? ≠ some 13)
    (hs : OneLine s) : OneLine (p ++ s) := by
  rw [OneLine, cut_crlf_append hp hlast, show cut crlf s = none from hs]
  rfl

theorem oneLine_of_notMem {s : Bytes} (h : 10 ∉ s) : OneLine s :=
  oneLine_iff.mpr fun hin => h (hin.subset (by decide))

theorem oneLine_mailLine {s : Bytes} : OneLine (mailLine s) ↔ OneLine s := by
  constructor
  · rw [oneLine_iff, oneLine_iff]
    intro h hin
    exact h (hin.trans ⟨ascii "MAIL FROM:<", ascii ">", rfl⟩)
  · intro h
    exact oneLine_append_cons (t := []) (by decide)
      (oneLine_append (by decide) (by decide) h) (by decide)

theorem oneLine_rcptLine {r : Bytes} : OneLine (rcptLine r) ↔ OneLine r := by
  constructor
  · rw [oneLine_iff, oneLine_iff]
    intro h hin
    exact h (hin.trans ⟨ascii "RCPT TO:<", ascii ">", rfl⟩)
  · intro h
    exact oneLine_append_cons (t := []) (by decide)
      (oneLine_append (by decide) (by decide) h) (by decide)

/-- Every line of the headers has a colon. -/
theorem colon_handoffHeaders {s r subject date : Bytes} (hs : OneLine s) (hr : OneLine r)
    (hsubject : 10 ∉ subject) (hdate : 10 ∉ date) :
    ∀ l ∈ pieces (handoffHeaders s r subject date), 58 ∈ l := by
  have htext : handoffHeaders s r subject date = (ascii "From: " ++ s) ++ 10 ::
      ((ascii "To: " ++ r) ++ 10 :: ((ascii "Subject: " ++ subject) ++ 10 ::
        (ascii "Date: " ++ date))) := by
    have hlf : ascii "\n" = [10] := by decide
    simp only [handoffHeaders, hlf, List.append_assoc, List.cons_append, List.nil_append]
  have hline : ∀ (p t : Bytes), OneLine p → p.getLast? ≠ some 13 → OneLine t → OneLine (p ++ t) :=
    fun p t => oneLine_append
  rw [htext]
  refine colon_pieces (hline _ _ (by decide) (by decide) hs)
    (List.mem_append_left _ (by decide)) ?_
  refine colon_pieces (hline _ _ (by decide) (by decide) hr)
    (List.mem_append_left _ (by decide)) ?_
  refine colon_pieces (hline _ _ (by decide) (by decide) (oneLine_of_notMem hsubject))
    (List.mem_append_left _ (by decide)) ?_
  intro l hl
  rw [pieces_of_oneLine (hline _ _ (by decide) (by decide) (oneLine_of_notMem hdate)),
    List.mem_singleton] at hl
  rw [hl]
  exact List.mem_append_left _ (by decide)

/-- A subject that is read back has one line. -/
theorem notMem_subjectOf (headers : Bytes) : 10 ∉ subjectOf headers := by
  rw [subjectOf]
  rcases h : (getlines 10 headers).find? (ascii "Subject:").isPrefixOf with _ | l
  · decide
  · intro hmem
    have hl : 10 ∈ l := List.mem_of_mem_drop ((trim_isInfix _).subset hmem)
    exact notMem_of_mem_getlines (List.mem_of_find?_eq_some h) hl

/-- The pieces of a body are its lines, and perhaps an empty one. -/
theorem pieces_eq (body : Bytes) :
    pieces body = bodyLines body ∨ pieces body = bodyLines body ++ [[]] := by
  by_cases h : (takeLines crlf body).2 = []
  · refine Or.inr ?_
    rw [pieces, bodyLines, if_pos h, h, List.append_nil]
  · refine Or.inl ?_
    rw [pieces, bodyLines, if_neg h]

/-- The empty piece does nothing. -/
theorem foldl_pieces (body : Bytes) (st : Session) :
    (pieces body).foldl takeData st = (bodyLines body).foldl takeData st := by
  rcases pieces_eq body with h | h
  · rw [h]
  · rw [h, List.foldl_append]
    have hnot : ¬Taken [] := by decide
    exact takeData_of_not_taken hnot

theorem sameEnvelope_foldl (ls : List Bytes) (st : Session) :
    SameEnvelope st (ls.foldl takeData st) := by
  induction ls generalizing st with
  | nil => exact .refl st
  | cons l ls ih =>
    have hl := sameEnvelope_takeData st l
    have hls := ih (takeData st l)
    exact ⟨hls.sender.trans hl.sender, hls.valid.trans hl.valid, hls.nonLocal.trans hl.nonLocal,
      hls.mode.trans hl.mode⟩

/-- The state in which the data of a message begin. -/
def dataState (sender : Bytes) (valid nonLocal : List Bytes) : Session :=
  { Session.fresh with senderEmail := sender, validRecipients := valid,
                       nonLocalRecipients := nonLocal, isDataRecptMode := true }

/-- `DATA`, once there are a sender and a recipient. -/
theorem command_data_of_recipients {sender : Bytes} {valid nonLocal : List Bytes}
    (hsender : sender ≠ []) (hrcpt : valid ≠ [] ∨ nonLocal ≠ []) :
    (command { Session.fresh with senderEmail := sender, validRecipients := valid,
                                  nonLocalRecipients := nonLocal } true
      (trim (ascii "DATA"))).2 = some (dataState sender valid nonLocal) := by
  have htrim : trim (ascii "DATA") = ascii "DATA" := by decide
  rw [htrim, command_data, if_neg]
  · rfl
  · rintro (hnil | ⟨hv, hn⟩)
    · exact hsender hnil
    · exact hrcpt.elim (fun h => h hv) (fun h => h hn)

theorem mode_endOfData (moment : Moment) (st : Session) (x : Bool) :
    (endOfData moment st x).2.isDataRecptMode = false := by
  simp only [endOfData]
  split_ifs <;> rfl

/-- **The data of a message**, from `DATA` on: if its lines pass, one message is
completed and `QUIT` ends the session. -/
theorem outcome_message (moments : ℕ → Moment) (n : ℕ) (sender : Bytes)
    {valid nonLocal hs : List Bytes} {body : Bytes} (hrcpt : nonLocal ≠ [] ∨ valid ≠ [])
    (hcolon : ∀ l ∈ hs, 58 ∈ l) (hlines : BodyLike true (bodyLines body))
    (hdots : ∀ l ∈ bodyLines body, l ≠ ascii ".") :
    ∃ st, outcome moments n (dataState sender valid nonLocal)
        (hs ++ ([] :: (pieces body ++ [ascii ".", ascii "QUIT"]))) = ([ascii "QUIT"], [st]) ∧
      SameEnvelope (dataState sender valid nonLocal) st ∧ st.headersBlock = headerText hs ∧
      st.bodyBlock = bodyText (bodyLines body) := by
  have hdot : ∀ l ∈ hs, trim l ≠ ascii "." := fun l hl => trim_ne_dot (hcolon l hl)
  have hdot' : ∀ l ∈ pieces body, trim l ≠ ascii "." := by
    intro l hl
    have hline : l ∈ bodyLines body ∨ l = [] := by
      rcases pieces_eq body with h | h <;> rw [h] at hl
      · exact Or.inl hl
      · simpa using hl
    rcases hline with hl | rfl
    · rw [(hlines.taken l hl).2]
      exact hdots l hl
    · decide
  set st₁ := hs.foldl takeData (dataState sender valid nonLocal) with hst₁
  have hst₁' : hs.foldl takeData (dataState sender valid nonLocal) = _ :=
    foldl_takeData_header hcolon rfl
  set st₂ := (pieces body).foldl takeData st₁ with hst₂
  have hst₂' : st₂.bodyBlock = bodyText (bodyLines body) ∧ st₂.headersBlock = headerText hs := by
    rw [hst₂, foldl_pieces]
    have hlike : BodyLike st₁.inHeaderSection (bodyLines body) := by
      rw [hst₁, hst₁']
      exact hlines
    obtain ⟨hbody, hheaders⟩ := foldl_takeData_body hlike
    rw [hbody, hheaders, hst₁, hst₁']
    exact ⟨rfl, rfl⟩
  have henv₁ : SameEnvelope (dataState sender valid nonLocal) st₁ := sameEnvelope_foldl hs _
  have henv : SameEnvelope (dataState sender valid nonLocal) st₂ := by
    have h := sameEnvelope_foldl (pieces body) st₁
    exact ⟨h.sender.trans henv₁.sender, h.valid.trans henv₁.valid, h.nonLocal.trans henv₁.nonLocal,
      h.mode.trans henv₁.mode⟩
  refine ⟨st₂, ?_, henv, hst₂'.2, hst₂'.1⟩
  have hrcpt₂ : st₂.nonLocalRecipients ≠ [] ∨ st₂.validRecipients ≠ [] := by
    rw [henv.nonLocal, henv.valid]
    exact hrcpt
  rw [outcome_takeData rfl hdot, outcome_skip (by decide),
    outcome_takeData (henv₁.mode.trans rfl) hdot',
    outcome_dot (henv.mode.trans rfl) (by decide) hrcpt₂,
    outcome_quit (by decide) (mode_endOfData _ _ _) rfl]
  rfl

theorem taken_of_trim {l : Bytes} (htrim : trim l = l) (hne : l ≠ [])
    (hlen : l.length ≤ bufferLength) : Taken l := by
  rw [Taken, htrim]
  exact ⟨hne, hlen⟩

/-- **What passes is handed over.** -/
theorem handedOver_of_passes {s r subject body date : Bytes} (h : Passes s r subject body date)
    (hdate : 10 ∉ date) (moments : ℕ → Moment) :
    HandedOver s r subject body
      (exchanges (step true moments) 0 .fresh (handoffLines s r subject body date)) := by
  obtain ⟨hne, hs, hbrackets, hslen⟩ := h.sender
  obtain ⟨hr, hrbrackets, hrlen⟩ := h.recipient
  have hsubject : 10 ∉ subject := h.headers ▸ notMem_subjectOf _
  have hmail : Taken (mailLine s) :=
    taken_of_trim (trim_mailLine s) (by simp [mailLine, ascii]) hslen
  have hrcpt : Taken (rcptLine r) :=
    taken_of_trim (trim_rcptLine r) (by simp [rcptLine, ascii]) hrlen
  set st₁ : Session := { Session.fresh with senderEmail := s } with hst₁
  have hmail' : (command .fresh true (trim (mailLine s))).2 = some st₁ := by
    rw [trim_mailLine, command_mailLine, unbracket_eq_self.mpr hbrackets]
    rfl
  have hsender : st₁.senderEmail ≠ [] := hne
  obtain ⟨valid, nonLocal, hlists, hnonempty, hrcpt'⟩ := command_rcptLine_of_ne r hsender rfl rfl
  rw [← trim_rcptLine] at hrcpt'
  rw [unbracket_eq_self.mpr hrbrackets] at hlists
  have hdata : (command { st₁ with validRecipients := valid, nonLocalRecipients := nonLocal } true
      (trim (ascii "DATA"))).2 = some (dataState s valid nonLocal) :=
    command_data_of_recipients hne hnonempty.symm
  obtain ⟨st, hout, henv, hheaders, hbody⟩ := outcome_message moments 4 s hnonempty
    (colon_handoffHeaders hs hr hsubject hdate) h.lines h.dots
  have houtcome : outcome moments 0 .fresh (handoffLines s r subject body date) =
      ([ascii "HELO localhost", mailLine s, rcptLine r, ascii "DATA", ascii "QUIT"], [st]) := by
    have hhelo : (command Session.fresh true (trim (ascii "HELO localhost"))).2 = some .fresh := rfl
    have htrim : trim (ascii "HELO localhost") = ascii "HELO localhost" := by decide
    have htrim' : trim (ascii "DATA") = ascii "DATA" := by decide
    rw [handoffLines, pieces_of_oneLine (oneLine_mailLine.mpr hs),
      pieces_of_oneLine (oneLine_rcptLine.mpr hr), outcome_command (by decide) rfl hhelo,
      List.singleton_append, outcome_command hmail rfl hmail', List.singleton_append,
      outcome_command hrcpt rfl hrcpt', outcome_command (by decide) rfl hdata, hout, htrim, htrim',
      trim_mailLine, trim_rcptLine]
  obtain ⟨hcommands, hcompletes⟩ := Prod.mk.inj houtcome
  refine ⟨hcommands, st, hcompletes, henv.sender, ?_, ?_, hbody⟩
  · rw [henv.valid, henv.nonLocal]
    exact hlists
  · rw [hheaders]
    exact h.headers

/-! ### Nothing else is handed over -/

section Converse

variable {moments : ℕ → Moment} {n : ℕ} {st : Session} {lines : List Bytes}

/-- What is executed has been looked at. -/
theorem taken_of_mem_commands {es : List Talk} {c : Bytes} (h : c ∈ commands es) :
    c.length ≤ bufferLength ∧ ∃ e ∈ es, trim e.line = c := by
  obtain ⟨e, he, hc⟩ := List.mem_filterMap.mp h
  by_cases htaken : Taken e.line ∧ e.before.isDataRecptMode = false
  · rw [if_pos htaken] at hc
    obtain rfl := Option.some.inj hc
    exact ⟨htaken.1.2, e, he, rfl⟩
  · rw [if_neg htaken] at hc
    exact absurd hc (by simp)

/-- Outside DATA mode, when nothing but `QUIT` is executed, nothing is completed. -/
theorem completes_of_quit (hmode : st.isDataRecptMode = false)
    (h : (outcome moments n st lines).1 = [ascii "QUIT"]) :
    (outcome moments n st lines).2 = [] := by
  induction lines generalizing n with
  | nil => rfl
  | cons l lines ih =>
    by_cases htaken : Taken l
    · rcases hst : (command st true (trim l)).2 with _ | st'
      · rw [outcome_quit htaken hmode hst]
      · rw [outcome_command htaken hmode hst] at h
        have hquit : trim l = ascii "QUIT" := (List.cons.inj h).1
        rw [hquit] at hst
        exact absurd hst
          (by simp [command, show Verb.ofWord (cmdPart (ascii "QUIT")) = .quit from rfl])
    · rw [outcome_skip htaken] at h ⊢
      exact ih h

/-- The first piece of a text. -/
theorem pieces_cons (text : Bytes) :
    (OneLine text ∧ pieces text = [text]) ∨
      ∃ p q, text = p ++ crlf ++ q ∧ pieces text = p :: pieces q := by
  rcases h : cut crlf text with _ | ⟨p, q⟩
  · exact Or.inl ⟨h, pieces_of_oneLine h⟩
  · refine Or.inr ⟨p, q, eq_append_of_cut h, ?_⟩
    rw [pieces, linesOf, takeLines_of_some crlf_ne_nil h]
    rfl

/-- **A line with an end in it is not executed as it is**: what is executed of it is
shorter. -/
theorem oneLine_of_commands {b : UInt8} {m : Bytes} (hb : isSpace b = false)
    (hmode : st.isDataRecptMode = false) (hlen : (b :: m).length ≤ bufferLength) {cs : List Bytes}
    (h : (outcome moments n st (pieces (b :: m) ++ lines)).1 = (b :: m) :: cs) :
    OneLine (b :: m) := by
  rcases pieces_cons (b :: m) with ⟨hone, -⟩ | ⟨p, q, htext, hpieces⟩
  · exact hone
  exfalso
  rw [hpieces, List.cons_append] at h
  have hlt : p.length < (b :: m).length := by
    have hcrlf : crlf.length = 2 := rfl
    rw [htext, List.length_append, List.length_append, hcrlf]
    omega
  have htrim := (trim_isInfix p).length_le
  -- the first piece begins with `b`, so it is not blank
  have hp : b ∈ p := by
    rcases p with _ | ⟨b', p⟩
    · obtain rfl : b = 13 := (List.cons.inj htext).1
      exact absurd hb (by decide)
    · obtain rfl : b = b' := (List.cons.inj htext).1
      exact List.mem_cons_self
  have htaken : Taken p := ⟨List.ne_nil_of_mem (mem_trim hp hb), by omega⟩
  have hhead : trim p = b :: m := by
    rcases hst : (command st true (trim p)).2 with _ | st'
    · rw [outcome_quit htaken hmode hst] at h
      exact (List.cons.inj h).1
    · rw [outcome_command htaken hmode hst] at h
      exact (List.cons.inj h).1
  rw [hhead] at htrim
  omega

/-- The lines of a body up to the first dot. -/
theorem foldl_until_dot (hmode : st.isDataRecptMode = true)
    (hrcpt : st.nonLocalRecipients ≠ [] ∨ st.validRecipients ≠ []) {ls qs : List Bytes}
    {d : Bytes} (hls : ∀ l ∈ ls, trim l ≠ ascii ".") (hd : trim d = ascii ".") {st' : Session}
    (h : (outcome moments n st (ls ++ d :: qs)).2 = [st']) : st' = ls.foldl takeData st := by
  have henv := sameEnvelope_foldl ls st
  rw [outcome_takeData hmode hls, outcome_dot (henv.mode.trans hmode) hd
    (by rw [henv.nonLocal, henv.valid]; exact hrcpt)] at h
  exact (List.cons.inj h).1.symm

/-- **The body that arrives is the one that was sent only if its lines pass**: a
line that does not makes it shorter, and so does a message that ends too early. -/
theorem bodyLike_of_completes (hmode : st.isDataRecptMode = true)
    (hrcpt : st.nonLocalRecipients ≠ [] ∨ st.validRecipients ≠ []) (hnil : st.bodyBlock = [])
    {body : Bytes} {st' : Session}
    (h : (outcome moments n st (pieces body ++ [ascii ".", ascii "QUIT"])).2 = [st'])
    (hbody : st'.bodyBlock = bodyText (bodyLines body)) :
    BodyLike st.inHeaderSection (bodyLines body) ∧ (∀ l ∈ bodyLines body, l ≠ ascii ".") ∧
      st' = (bodyLines body).foldl takeData st := by
  have hsize := congrArg List.length hbody
  rw [length_bodyText] at hsize
  obtain ⟨tail, hpieces, htail⟩ : ∃ tail, pieces body = bodyLines body ++ tail ∧
      ∀ l ∈ tail, trim l ≠ ascii "." := by
    rcases pieces_eq body with hp | hp
    · exact ⟨[], by rw [hp, List.append_nil], by simp⟩
    · exact ⟨[[]], hp, by decide⟩
  rcases hfind : (bodyLines body).find? fun l => decide (trim l = ascii ".") with _ | d
  · have hdots : ∀ l ∈ bodyLines body, trim l ≠ ascii "." := by
      intro l hl heq
      exact absurd (List.find?_eq_none.mp hfind l hl) (by simp [heq])
    have hst : st' = (pieces body).foldl takeData st := by
      refine foldl_until_dot hmode hrcpt (fun l hl => ?_) (by decide) h
      rw [hpieces] at hl
      exact (List.mem_append.mp hl).elim (hdots l) (htail l)
    rw [foldl_pieces] at hst
    have hlike : BodyLike st.inHeaderSection (bodyLines body) := by
      refine (length_bodyBlock (bodyLines body) st).2 ?_
      rw [← hst, hsize, hnil, List.length_nil, Nat.zero_add]
    refine ⟨hlike, fun l hl heq => hdots l hl ?_, hst⟩
    rw [(hlike.taken l hl).2, heq]
  · obtain ⟨hd, qs, rs, hsplit, hqs⟩ := List.find?_eq_some_iff_append.mp hfind
    exfalso
    rw [hpieces, hsplit, List.append_assoc, List.append_assoc, List.cons_append] at h
    have hst : st' = qs.foldl takeData st :=
      foldl_until_dot hmode hrcpt (fun l hl => by simpa using hqs l hl) (by simpa using hd) h
    have hle := (length_bodyBlock qs st).1
    have hlt : bodySize (bodyLines body) = bodySize qs + (d.length + 1 + bodySize rs) := by
      rw [hsplit]
      simp [bodySize]
    rw [← hst, hsize, hnil, List.length_nil] at hle
    omega

end Converse

/-- The state after `MAIL FROM` on a new connection. -/
def mailState (sender : Bytes) : Session := { Session.fresh with senderEmail := sender }

/-- **The commands before the data**: if nothing else is executed and a message is
completed, they are single lines and `DATA` is accepted. -/
theorem envelope_of_outcome {s r : Bytes} {moments : ℕ → Moment} {lines : List Bytes}
    {st : Session} (hslen : (mailLine s).length ≤ bufferLength)
    (hrlen : (rcptLine r).length ≤ bufferLength)
    (h : outcome moments 0 .fresh (ascii "HELO localhost" ::
        (pieces (mailLine s) ++ (pieces (rcptLine r) ++ (ascii "DATA" :: lines)))) =
      ([ascii "HELO localhost", mailLine s, rcptLine r, ascii "DATA", ascii "QUIT"], [st])) :
    OneLine s ∧ OneLine r ∧ unbracket s ≠ [] ∧ ∃ valid nonLocal, valid ++ nonLocal = [unbracket r] ∧
      (nonLocal ≠ [] ∨ valid ≠ []) ∧
      outcome moments 4 (dataState (unbracket s) valid nonLocal) lines =
        ([ascii "QUIT"], [st]) := by
  have hhelo : (command Session.fresh true (trim (ascii "HELO localhost"))).2 = some .fresh := rfl
  have htrim : trim (ascii "DATA") = ascii "DATA" := by decide
  have hmail : Taken (mailLine s) :=
    taken_of_trim (trim_mailLine s) (by simp [mailLine, ascii]) hslen
  have hrcpt : Taken (rcptLine r) :=
    taken_of_trim (trim_rcptLine r) (by simp [rcptLine, ascii]) hrlen
  have hmail' : (command .fresh true (trim (mailLine s))).2 = some (mailState (unbracket s)) := by
    rw [trim_mailLine]
    exact command_mailLine s
  have h₁ := outcome_after (by decide) rfl hhelo h
  have hs : OneLine s := oneLine_mailLine.mp
    (oneLine_of_commands (b := 77) rfl rfl hslen (congrArg Prod.fst h₁))
  rw [pieces_of_oneLine (oneLine_mailLine.mpr hs), List.singleton_append] at h₁
  have h₂ := outcome_after hmail rfl hmail' h₁
  have hr : OneLine r := oneLine_rcptLine.mp
    (oneLine_of_commands (b := 82) rfl rfl hrlen (congrArg Prod.fst h₂))
  rw [pieces_of_oneLine (oneLine_rcptLine.mpr hr), List.singleton_append] at h₂
  -- without a sender `DATA` is refused, and then no message is completed
  have hne : unbracket s ≠ [] := by
    intro hnil
    have hrcpt' : (command (mailState (unbracket s)) true (trim (rcptLine r))).2 =
        some (mailState (unbracket s)) := by
      rw [trim_rcptLine, command_rcptLine, if_pos (by exact hnil)]
    have hdata : (command (mailState (unbracket s)) true (trim (ascii "DATA"))).2 =
        some (mailState (unbracket s)) := by
      rw [htrim, command_data, if_pos (Or.inl (by exact hnil))]
    have h₄ := outcome_after (by decide) rfl hdata (outcome_after hrcpt rfl hrcpt' h₂)
    have hquit := completes_of_quit rfl (congrArg Prod.fst h₄)
    rw [h₄] at hquit
    exact absurd hquit (by simp)
  have hmailed : (mailState (unbracket s)).senderEmail ≠ [] := hne
  obtain ⟨valid, nonLocal, hlists, hnonempty, hrcpt'⟩ := command_rcptLine_of_ne r hmailed rfl rfl
  rw [← trim_rcptLine] at hrcpt'
  have hdata : (command { mailState (unbracket s) with validRecipients := valid,
                                                       nonLocalRecipients := nonLocal } true
      (trim (ascii "DATA"))).2 = some (dataState (unbracket s) valid nonLocal) :=
    command_data_of_recipients hne hnonempty.symm
  exact ⟨hs, hr, hne, valid, nonLocal, hlists, hnonempty,
    outcome_after (by decide) rfl hdata (outcome_after hrcpt rfl hrcpt' h₂)⟩

/-- **What is handed over passes**, apart from NUL. -/
theorem passes_of_handedOver {s r subject body date : Bytes} (hdate : 10 ∉ date)
    (h0 : 0 ∉ s ∧ 0 ∉ r ∧ 0 ∉ subject ∧ 0 ∉ body) {moments : ℕ → Moment}
    (h : HandedOver s r subject body
      (exchanges (step true moments) 0 .fresh (handoffLines s r subject body date))) :
    Passes s r subject body date := by
  obtain ⟨hcommands, st, hcompletes, hsender, hrecipients, hsubject, hbody⟩ := h
  have hlen : ∀ c ∈ [ascii "HELO localhost", mailLine s, rcptLine r, ascii "DATA", ascii "QUIT"],
      c.length ≤ bufferLength := by
    intro c hc
    rw [← hcommands] at hc
    exact (taken_of_mem_commands hc).1
  have hslen := hlen (mailLine s) (by simp only [List.mem_cons, true_or, or_true])
  have hrlen := hlen (rcptLine r) (by simp only [List.mem_cons, true_or, or_true])
  obtain ⟨hs, hr, hne, valid, nonLocal, hlists, hnonempty, hout⟩ :=
    envelope_of_outcome hslen hrlen (Prod.ext hcommands hcompletes)
  have hcolon := colon_handoffHeaders hs hr (hsubject ▸ notMem_subjectOf st.headersBlock) hdate
  have hdot : ∀ l ∈ pieces (handoffHeaders s r subject date), trim l ≠ ascii "." :=
    fun l hl => trim_ne_dot (hcolon l hl)
  rw [outcome_takeData rfl hdot, outcome_skip (by decide), foldl_takeData_header hcolon rfl] at hout
  set st₁ : Session := { dataState (unbracket s) valid nonLocal with
    headersBlock := (dataState (unbracket s) valid nonLocal).headersBlock ++
      headerText (pieces (handoffHeaders s r subject date)) } with hst₁
  have hmode : st₁.isDataRecptMode = true := rfl
  obtain ⟨hlines, hdots, hst⟩ := bodyLike_of_completes hmode hnonempty rfl
    (congrArg Prod.snd hout) hbody
  -- the state that was completed is the one after the body
  have henv : SameEnvelope st₁ st := by
    rw [hst]
    exact sameEnvelope_foldl (bodyLines body) st₁
  have hheaders : st.headersBlock = headerText (pieces (handoffHeaders s r subject date)) := by
    have hbody' : ((bodyLines body).foldl takeData st₁).headersBlock = st₁.headersBlock :=
      (foldl_takeData_body hlines).2
    rw [← hst] at hbody'
    exact hbody'.trans (List.nil_append _)
  have hs' : unbracket s = s := henv.sender.symm.trans hsender
  have hr' : unbracket r = r := by
    rw [henv.valid, henv.nonLocal] at hrecipients
    exact (List.cons.inj (hlists.symm.trans hrecipients)).1
  refine ⟨h0, ⟨hs' ▸ hne, hs, unbracket_eq_self.mp hs', hslen⟩,
    ⟨hr, unbracket_eq_self.mp hr', hrlen⟩, ?_, hlines, hdots⟩
  rw [hheaders] at hsubject
  exact hsubject

/-! ### NUL -/

/-- There is no NUL in the message. -/
def Session.NulFree (st : Session) : Prop := 0 ∉ st.headersBlock ∧ 0 ∉ st.bodyBlock

theorem nulFree_dataLine {st : Session} (h : st.NulFree) {line : Bytes} (hline : 0 ∉ line) :
    (dataLine st line).NulFree := by
  have hblock : ∀ block : Bytes, 0 ∉ block → 0 ∉ block ++ line ++ ascii "\n" := by
    intro block hblock hmem
    rcases List.mem_append.mp hmem with hmem | hmem
    · exact (List.mem_append.mp hmem).elim hblock hline
    · exact absurd hmem (by decide)
  simp only [dataLine]
  split_ifs
  · exact h
  · exact ⟨hblock _ h.1, h.2⟩
  · exact ⟨h.1, hblock _ h.2⟩
  · exact ⟨h.1, hblock _ h.2⟩

theorem nulFree_command {x : Bool} {st st' : Session} (h : st.NulFree) {line : Bytes}
    (hst : (command st x line).2 = some st') : st'.NulFree := by
  simp only [command] at hst
  rcases hverb : Verb.ofWord (cmdPart line) with _ | _ | _ | _ | _ | _ | _ | _ <;>
    simp only [hverb, Option.some.injEq, reduceCtorEq] at hst <;> subst hst
  · exact h
  · simp only [mailFrom]
    split_ifs <;> exact h
  · simp only [rcptTo]
    split_ifs <;> exact h
  · simp only [data]
    split_ifs
    · exact h
    · exact h
    · exact ⟨List.not_mem_nil, List.not_mem_nil⟩
  · exact h
  · exact ⟨List.not_mem_nil, List.not_mem_nil⟩
  · exact h

/-- A line without NUL brings none. -/
theorem nulFree_handleLine {x : Bool} {moment : Moment} {st st' : Session} (h : st.NulFree)
    {line : Bytes} (hline : 0 ∉ line) (hst : (handleLine x moment st line).2 = some st') :
    st'.NulFree := by
  by_cases htaken : Taken line
  · rcases hmode : st.isDataRecptMode with _ | _
    · rw [handleLine_command htaken hmode] at hst
      exact nulFree_command h hst
    · by_cases hdot : trim line = ascii "."
      · rw [handleLine_dot htaken hmode hdot] at hst
        obtain rfl := Option.some.inj hst
        simp only [endOfData]
        split_ifs
        · exact h
        all_goals exact ⟨List.not_mem_nil, List.not_mem_nil⟩
      · rw [handleLine_data htaken hmode hdot] at hst
        obtain rfl := Option.some.inj hst
        exact nulFree_dataLine h fun hmem => hline ((trim_isInfix line).subset hmem)
  · rw [handleLine_of_not_taken htaken] at hst
    exact Option.some.inj hst ▸ h

theorem notMem_subjectOf_of {headers : Bytes} (h : 0 ∉ headers) : 0 ∉ subjectOf headers := by
  rw [subjectOf]
  rcases hfind : (getlines 10 headers).find? (ascii "Subject:").isPrefixOf with _ | l
  · decide
  · intro hmem
    have hl : 0 ∈ l := List.mem_of_mem_drop ((trim_isInfix _).subset hmem)
    exact h (mem_of_mem_getlines (List.mem_of_find?_eq_some hfind) hl)

/-- **No NUL arrives**, so a message with one is not handed over. -/
theorem notMem_of_handedOver {s r subject body : Bytes} {moments : ℕ → Moment}
    {lines : List Bytes} (hlines : ∀ l ∈ lines, 0 ∉ l)
    (h : HandedOver s r subject body (exchanges (step true moments) 0 .fresh lines)) :
    0 ∉ s ∧ 0 ∉ r ∧ 0 ∉ subject ∧ 0 ∉ body := by
  have hcommand : ∀ c ∈ [ascii "HELO localhost", mailLine s, rcptLine r, ascii "DATA",
      ascii "QUIT"], 0 ∉ c := by
    intro c hc h0
    rw [← h.commands] at hc
    obtain ⟨-, e, he, rfl⟩ := taken_of_mem_commands hc
    exact hlines _ (mem_of_mem_exchanges he) ((trim_isInfix e.line).subset h0)
  obtain ⟨st, hcompletes, -, -, hsubject, hbody⟩ := h.message
  have hfree : st.NulFree := by
    have hmem : st ∈ completes (exchanges (step true moments) 0 .fresh lines) := by
      rw [hcompletes]
      exact List.mem_singleton_self st
    obtain ⟨e, he, hst⟩ := List.mem_filterMap.mp hmem
    have hbefore : e.before = st := by
      split_ifs at hst
      exact Option.some.inj hst
    obtain ⟨pre, post, hsplit⟩ := List.append_of_mem he
    have hinv := exchanges_inv (I := fun _ st => st.NulFree) (P := fun e => 0 ∉ e.line)
      (fun past st hst n line st' hline hst' => nulFree_handleLine hst hline hst') []
      ⟨List.not_mem_nil, List.not_mem_nil⟩
      (fun e he => hlines _ (mem_of_mem_exchanges he)) hsplit
    exact hbefore ▸ hinv.1
  refine ⟨fun h0 => hcommand (mailLine s) (by simp) ?_,
    fun h0 => hcommand (rcptLine r) (by simp) ?_,
    hsubject ▸ notMem_subjectOf_of hfree.1, fun h0 => ?_⟩
  · exact List.mem_append_left _ (List.mem_append_right _ h0)
  · exact List.mem_append_left _ (List.mem_append_right _ h0)
  · obtain ⟨l, hl, h0l⟩ := mem_bodyLines h0 (by decide)
    refine hfree.2 ?_
    rw [hbody]
    exact List.mem_flatMap.mpr ⟨l, hl, List.mem_append_left _ h0l⟩

/-- Byte by byte, a stream arrives without its NULs. -/
theorem linesReceived_singletons (stream : Bytes) :
    linesReceived (stream.map ([·])) = linesOf (stream.filter (· ≠ 0)) := by
  have hflatten : ((stream.map ([·])).map cString).flatten = stream.filter (· ≠ 0) := by
    induction stream with
    | nil => rfl
    | cons b stream ih =>
      rw [List.map_cons, List.map_cons, List.flatten_cons, ih, List.filter_cons]
      by_cases hb : b = 0 <;> simp [cString, hb]
  rw [linesReceived, hflatten]

theorem notMem_handoff {s r subject body date : Bytes}
    (h : 0 ∉ s ∧ 0 ∉ r ∧ 0 ∉ subject ∧ 0 ∉ body) (hdate : 0 ∉ date) :
    0 ∉ handoff s r subject body date := by
  obtain ⟨hs, hr, hsubject, hbody⟩ := h
  simp [handoff, sendViaSMTP, ascii, crlf, hs, hr, hsubject, hbody, hdate]

/-- **A message is handed over if and only if it passes**, whatever the date is,
which has neither NUL nor the end of a line. -/
theorem handsOver_iff {s r subject body date : Bytes} (hdate : 0 ∉ date ∧ 10 ∉ date) :
    HandsOver s r subject body date ↔ Passes s r subject body date := by
  constructor
  · intro h
    have hbytes := h (fun _ => .idle) _ (received_singletons _)
    rw [linesReceived_singletons] at hbytes
    have h0 := notMem_of_handedOver (fun l hl hmem => by
      exact absurd (List.mem_filter.mp (mem_of_mem_linesOf hl hmem)).2 (by decide)) hbytes
    have hall : (handoff s r subject body date).filter (· ≠ 0) = handoff s r subject body date := by
      refine List.filter_eq_self.mpr fun b hb => decide_eq_true ?_
      rintro rfl
      exact notMem_handoff h0 hdate.1 hb
    rw [hall, linesOf_handoff] at hbytes
    exact passes_of_handedOver hdate.2 h0 hbytes
  · intro h moments received hreceived
    rw [linesReceived_eq (notMem_handoff h.notMem hdate.1) hreceived, linesOf_handoff]
    exact handedOver_of_passes h hdate.2 moments

/-- A message of two lines. -/
theorem handsOver_two_lines :
    HandsOver (ascii "a@localhost") (ascii "b@c.d") (ascii "hi") (ascii "hello\r\nworld")
      (ascii "Mon, 01 Jan 2024 00:00:00 +0000") :=
  (handsOver_iff (by decide)).mpr
    ⟨by decide, by decide, by decide, by decide, ⟨by decide, by decide⟩, by decide⟩

/-- A dot on a line of its own ends the message, and what follows is executed. -/
theorem not_handsOver_dot :
    ¬HandsOver (ascii "a@localhost") (ascii "b@c.d") (ascii "hi") (ascii "hello\r\n.\r\nRSET")
      (ascii "Mon, 01 Jan 2024 00:00:00 +0000") := by
  intro h
  have h0 : 0 ∉ ascii "a@localhost" ∧ 0 ∉ ascii "b@c.d" ∧ 0 ∉ ascii "hi" ∧
      0 ∉ ascii "hello\r\n.\r\nRSET" := by decide
  have hbytes := h (fun _ => .idle) _ (received_singletons _)
  rw [linesReceived_eq (notMem_handoff h0 (by decide)) (received_singletons _),
    linesOf_handoff] at hbytes
  exact (passes_of_handedOver (by decide) h0 hbytes).dots (ascii ".") (by decide) rfl

end Smtp

end PennCloud
