import PennCloud.Frontend.Mail.Smtp

/-!
# A connection to the mail server

Two things a client should be able to rely on, whatever it has sent before.

**The packets do not matter** (`PennCloud.Smtp.handleClient_eq`): how the text is
cut by the network changes nothing in what the server answers, stores and relays.
The buffer survives from one `recv` to the next and a line is worked on as soon as
it is complete, so a command in the middle of a packet finds the same state as one
that came alone. Only a NUL would be different: what follows it in its packet is
lost.

**`RSET` should make the connection new**, and does so up to one thing
(`PennCloud.Smtp.restores_iff`): the recipients elsewhere. They are forgotten by
the next accepted `MAIL FROM`, which hides this from a client that goes on with
one. But a refused `MAIL FROM` leaves a sender too, and then `DATA` is accepted on
account of the recipients from before. What `RSET` leaves of the section the last
message was in does no harm (`PennCloud.Smtp.Alike`): `DATA` sets it again before
it is looked at.
-/

namespace PennCloud

namespace Smtp

open Wire Calls Text Lines

/-! ### Packets -/

/-- The results that calls of `recv` may have on a stream of bytes. -/
structure Received (stream : Bytes) (received : List Bytes) : Prop where
  /-- Together they are the stream. -/
  flatten : received.flatten = stream
  /-- None of them is empty: the stream goes on. -/
  ne_nil : ∀ chunk ∈ received, chunk ≠ []
  /-- They fit into the buffer, with its final NUL. -/
  length_lt : ∀ chunk ∈ received, chunk.length < bufferLength

/-- A stream may arrive byte by byte. -/
theorem received_singletons (stream : Bytes) : Received stream (stream.map ([·])) where
  flatten := by
    induction stream with
    | nil => rfl
    | cons b stream ih => rw [List.map_cons, List.flatten_cons, ih, List.singleton_append]
  ne_nil := by
    intro chunk h
    obtain ⟨b, -, rfl⟩ := List.mem_map.mp h
    exact List.cons_ne_nil b []
  length_lt := by
    intro chunk h
    obtain ⟨b, -, rfl⟩ := List.mem_map.mp h
    exact (by decide : 1 < bufferLength)

/-- A chunk without NUL is added to the buffer as it is. -/
theorem cString_eq_self {chunk : Bytes} (h : 0 ∉ chunk) : cString chunk = chunk := by
  refine List.takeWhile_eq_self_iff.mpr fun b hb => decide_eq_true ?_
  rintro rfl
  exact h hb

theorem crlf_ne_nil : crlf ≠ [] := by decide

/-- The lines of a stream. -/
def linesOf (stream : Bytes) : List Bytes := (takeLines crlf stream).1

/-- The lines that the server takes out of what it receives. -/
def linesReceived (received : List Bytes) : List Bytes := linesOf (received.map cString).flatten

/-- The server works on the lines it receives. -/
theorem handleClient_eq_run {received : List Bytes} (h : ∀ chunk ∈ received, chunk ≠ [])
    (x : Bool) (moments : ℕ → Moment) :
    handleClient x moments received =
      welcome :: (run (step x moments) 0 .fresh (linesReceived received)).1 := by
  rw [handleClient, serve_eq crlf_ne_nil h (by decide)]
  rfl

/-- Without NUL these are the lines of the stream. -/
theorem linesReceived_eq {stream : Bytes} (h0 : 0 ∉ stream) {received : List Bytes}
    (h : Received stream received) : linesReceived received = linesOf stream := by
  have hclean : received.map cString = received := by
    refine (List.map_congr_left fun chunk hchunk => cString_eq_self fun hb => ?_).trans
      (List.map_id received)
    exact h0 (h.flatten ▸ List.mem_flatten.mpr ⟨chunk, hchunk, hb⟩)
  rw [linesReceived, hclean, h.flatten]

/-- **What the server does depends on the stream alone**, through its lines. -/
theorem handleClient_eq {stream : Bytes} (h0 : 0 ∉ stream) {received : List Bytes}
    (h : Received stream received) (x : Bool) (moments : ℕ → Moment) :
    handleClient x moments received =
      welcome :: (run (step x moments) 0 .fresh (linesOf stream)).1 := by
  rw [handleClient_eq_run h.ne_nil, linesReceived_eq h0 h]

/-- **Sessions do not depend on packet boundaries.** -/
theorem same_for_all_packets {stream : Bytes} (h0 : 0 ∉ stream) {received received' : List Bytes}
    (h : Received stream received) (h' : Received stream received') (x : Bool)
    (moments : ℕ → Moment) : handleClient x moments received =
      handleClient x moments received' := by
  rw [handleClient_eq h0 h, handleClient_eq h0 h']

/-- Surroundings in which nothing can be relayed. -/
def Moment.idle : Moment := ⟨0, [], [], 0, fun _ _ => .failed .mxRecord []⟩

theorem same_for_two_packets :
    handleClient true (fun _ => .idle) [ascii "MAIL FROM:<a@b>\r", ascii "\nQUIT\r\n"] =
      handleClient true (fun _ => .idle) [ascii "MAIL FROM:<a@b>\r\nQUIT\r\n"] := by
  have h0 : 0 ∉ ascii "MAIL FROM:<a@b>\r\nQUIT\r\n" := by decide
  exact same_for_all_packets h0 ⟨by decide, by decide, by decide⟩ ⟨by decide, by decide, by decide⟩
    true _

/-! ### `RSET` -/

/-- Two states that no line tells apart: outside DATA mode nobody looks at the
section. -/
def Alike (st st' : Session) : Prop :=
  st = st' ∨ (st.isDataRecptMode = false ∧ ∃ b, st' = { st with inHeaderSection := b })

theorem alike_mailFrom (st : Session) (b : Bool) (message : Bytes)
    (h : st.isDataRecptMode = false) :
    (mailFrom st message).1 = (mailFrom { st with inHeaderSection := b } message).1 ∧
      Alike (mailFrom st message).2 (mailFrom { st with inHeaderSection := b } message).2 := by
  simp only [mailFrom]
  split_ifs
  all_goals exact ⟨rfl, Or.inr ⟨h, b, rfl⟩⟩

theorem alike_rcptTo (st : Session) (b x : Bool) (message : Bytes)
    (h : st.isDataRecptMode = false) :
    (rcptTo st x message).1 = (rcptTo { st with inHeaderSection := b } x message).1 ∧
      Alike (rcptTo st x message).2 (rcptTo { st with inHeaderSection := b } x message).2 := by
  simp only [rcptTo]
  split_ifs
  all_goals exact ⟨rfl, Or.inr ⟨h, b, rfl⟩⟩

/-- `DATA` sets the section. -/
theorem alike_data (st : Session) (b x : Bool) (h : st.isDataRecptMode = false) :
    (data st x).1 = (data { st with inHeaderSection := b } x).1 ∧
      Alike (data st x).2 (data { st with inHeaderSection := b } x).2 := by
  simp only [data]
  split_ifs
  · exact ⟨rfl, Or.inr ⟨h, b, rfl⟩⟩
  · exact ⟨rfl, Or.inr ⟨h, b, rfl⟩⟩
  · exact ⟨rfl, Or.inl rfl⟩

theorem alike_command (st : Session) (b x : Bool) (line : Bytes)
    (h : st.isDataRecptMode = false) :
    (command st x line).1 = (command { st with inHeaderSection := b } x line).1 ∧
      Option.Rel Alike (command st x line).2
        (command { st with inHeaderSection := b } x line).2 := by
  simp only [command]
  rcases Verb.ofWord (cmdPart line) with _ | _ | _ | _ | _ | _ | _ | _
  · exact ⟨rfl, .some (Or.inr ⟨h, b, rfl⟩)⟩
  · exact ⟨(alike_mailFrom st b _ h).1, .some (alike_mailFrom st b _ h).2⟩
  · exact ⟨(alike_rcptTo st b x _ h).1, .some (alike_rcptTo st b x _ h).2⟩
  · exact ⟨(alike_data st b x h).1, .some (alike_data st b x h).2⟩
  · exact ⟨rfl, .some (Or.inr ⟨h, b, rfl⟩)⟩
  · exact ⟨rfl, .some (Or.inr ⟨rfl, b, rfl⟩)⟩
  · exact ⟨rfl, .none⟩
  · exact ⟨rfl, .some (Or.inr ⟨h, b, rfl⟩)⟩

/-- A line does the same in states that are alike. -/
theorem alike_handleLine {st st' : Session} (h : Alike st st') (x : Bool) (moment : Moment)
    (line : Bytes) :
    (handleLine x moment st line).1 = (handleLine x moment st' line).1 ∧
      Option.Rel Alike (handleLine x moment st line).2 (handleLine x moment st' line).2 := by
  rcases h with rfl | ⟨hmode, b, rfl⟩
  · refine ⟨rfl, ?_⟩
    rcases (handleLine x moment st line).2 with _ | t
    · exact .none
    · exact .some (Or.inl rfl)
  · by_cases htaken : Taken line
    · rw [handleLine_command htaken hmode, handleLine_command htaken (by exact hmode)]
      obtain ⟨hout, hrel⟩ := alike_command st b x (trim line) hmode
      exact ⟨by rw [hout], hrel⟩
    · rw [handleLine_of_not_taken htaken, handleLine_of_not_taken htaken]
      exact ⟨rfl, .some (Or.inr ⟨hmode, b, rfl⟩)⟩

/-- Without `-x` there are no recipients elsewhere. -/
theorem nonLocal_handleLine {moment : Moment} {st st' : Session} {line : Bytes}
    (h : st.nonLocalRecipients = [])
    (hline : (handleLine false moment st line).2 = some st') : st'.nonLocalRecipients = [] := by
  have hdata : ∀ t, (dataLine st t).nonLocalRecipients = [] := by
    intro t
    simp only [dataLine]
    split_ifs <;> exact h
  have hend : (endOfData moment st false).2.nonLocalRecipients = [] := by
    simp only [endOfData]
    split_ifs <;> exact h
  have hcommand : ∀ t, (command st false t).2 = some st' → st'.nonLocalRecipients = [] := by
    intro t ht
    simp only [command] at ht
    rcases hv : Verb.ofWord (cmdPart t) with _ | _ | _ | _ | _ | _ | _ | _ <;>
      simp only [hv, Option.some.injEq, reduceCtorEq] at ht <;> subst ht
    · exact h
    · simp only [mailFrom]
      split_ifs
      · rfl
      · exact h
      · exact h
    · simp only [rcptTo]
      split_ifs <;> first | exact h | contradiction
    · simp only [data]
      split_ifs <;> exact h
    · exact h
    · exact h
    · exact h
  by_cases htaken : Taken line
  · rcases hmode : st.isDataRecptMode with _ | _
    · rw [handleLine_command htaken hmode] at hline
      exact hcommand _ hline
    · by_cases hdot : trim line = ascii "."
      · rw [handleLine_dot htaken hmode hdot] at hline
        exact Option.some.inj hline ▸ hend
      · rw [handleLine_data htaken hmode hdot] at hline
        exact Option.some.inj hline ▸ hdata _
  · rw [handleLine_of_not_taken htaken] at hline
    exact Option.some.inj hline ▸ h

/-- The line that asks for a reset. -/
def rsetLine : Bytes := ascii "RSET\r\n"

/-- The beginning of a connection: it leaves the server in a state outside DATA
mode and no partial line in the buffer. -/
structure Leaves (x : Bool) (moments : ℕ → Moment) (sent : Bytes) (st : Session) : Prop where
  /-- There is no NUL in it. -/
  notMem : 0 ∉ sent
  /-- It ends with a line. -/
  rest : (takeLines crlf sent).2 = []
  /-- The session goes on, in the state `st`. -/
  state : (run (step x moments) 0 .fresh (linesOf sent)).2 = some st
  /-- The server is outside DATA mode. -/
  mode : st.isDataRecptMode = false

/-- The moments of the first `n` lines, and those of the lines after them. -/
def splice (n : ℕ) (moments moments' : ℕ → Moment) (k : ℕ) : Moment :=
  if k < n then moments k else moments' (k - n)

/-- `RSET` makes the connection new: whatever is sent afterwards is answered,
stored and relayed as on a connection of its own, at the same moments. -/
def Restores (x : Bool) (moments : ℕ → Moment) (sent : Bytes) : Prop :=
  ∀ (s : Bytes) (moments' : ℕ → Moment), 0 ∉ s → ∀ whole before alone : List Bytes,
    Received (sent ++ rsetLine ++ s) whole → Received (sent ++ rsetLine) before →
    Received s alone →
    handleClient x (splice ((linesOf sent).length + 1) moments moments') whole =
      handleClient x moments before ++ (handleClient x moments' alone).tail

section Restores

variable {x : Bool} {moments : ℕ → Moment} {sent : Bytes} {st : Session}

/-- The lines of what was sent, of the reset and of what follows. -/
theorem Leaves.linesOf_append (h : Leaves x moments sent st) (s : Bytes) :
    linesOf (sent ++ rsetLine ++ s) = linesOf sent ++ ascii "RSET" :: linesOf s := by
  have hrset : takeLines crlf rsetLine = ([ascii "RSET"], []) := by decide
  rw [linesOf, List.append_assoc, takeLines_append crlf_ne_nil, h.rest, List.nil_append,
    takeLines_append crlf_ne_nil, hrset]
  rfl

/-- The outputs of a connection that is reset and then used for `s`. -/
theorem Leaves.run_append (h : Leaves x moments sent st) {moments' moments'' : ℕ → Moment}
    (hpre : ∀ k < (linesOf sent).length + 1, moments'' k = moments k)
    (hpost : ∀ k, moments'' (k + ((linesOf sent).length + 1)) = moments' k) (s : Bytes) :
    (run (step x moments'') 0 Session.fresh (linesOf (sent ++ rsetLine ++ s))).1 =
      (run (step x moments) 0 Session.fresh (linesOf sent)).1 ++
        .reply (ascii "250 OK\r\n") :: (run (step x moments') 0 (rset st) (linesOf s)).1 := by
  have hsent : run (step x moments'') 0 .fresh (linesOf sent) =
      ((run (step x moments) 0 .fresh (linesOf sent)).1, some st) := by
    refine (run_congr_step (fun k _ hk => ?_) Session.fresh).trans (Prod.ext rfl h.state)
    rw [step, step, hpre k (by omega)]
  have hrset : step x moments'' (0 + (linesOf sent).length) st (ascii "RSET") =
      ([.reply (ascii "250 OK\r\n")], some (rset st)) := by
    have htrim : trim (ascii "RSET") = ascii "RSET" := by decide
    rw [step, handleLine_command (by decide) h.mode, htrim]
    rfl
  have hs : (run (step x moments'') (0 + ((linesOf sent).length + 1)) (rset st)
      (linesOf s)).1 = (run (step x moments') 0 (rset st) (linesOf s)).1 := by
    refine run_congr (R := Eq) (fun n st₁ st₂ line heq => ?_) rfl (linesOf s)
    rw [step, step, hpost n, heq]
    refine ⟨rfl, ?_⟩
    rcases (handleLine x (moments' n) st₂ line).2 with _ | t
    · exact .none
    · exact .some rfl
  rw [h.linesOf_append, Lines.run_append hsent, run_cons_some hrset, List.singleton_append,
    Nat.add_assoc, hs]

/-- What has to be compared: the states after the reset and at the beginning. -/
theorem Leaves.restores_iff_run (h : Leaves x moments sent st) :
    Restores x moments sent ↔ ∀ (s : Bytes) (moments' : ℕ → Moment), 0 ∉ s →
      (run (step x moments') 0 (rset st) (linesOf s)).1 =
        (run (step x moments') 0 Session.fresh (linesOf s)).1 := by
  have h0 : 0 ∉ sent ++ rsetLine := fun hb =>
    (List.mem_append.mp hb).elim h.notMem (by decide)
  have hbefore := h.run_append (fun _ _ => rfl) (fun _ => rfl) []
  rw [List.append_nil] at hbefore
  -- the two connections agree up to the answer to the reset
  have hiff : ∀ (s : Bytes) (moments' : ℕ → Moment), 0 ∉ s → ∀ whole before alone : List Bytes,
      Received (sent ++ rsetLine ++ s) whole → Received (sent ++ rsetLine) before →
      Received s alone →
      (handleClient x (splice ((linesOf sent).length + 1) moments moments') whole =
        handleClient x moments before ++ (handleClient x moments' alone).tail ↔
      (run (step x moments') 0 (rset st) (linesOf s)).1 =
        (run (step x moments') 0 Session.fresh (linesOf s)).1) := by
    intro s moments' hs whole before alone hwhole hbef halone
    have hpre : ∀ k < (linesOf sent).length + 1,
        splice ((linesOf sent).length + 1) moments moments' k = moments k := fun k hk => if_pos hk
    have hpost : ∀ k, splice ((linesOf sent).length + 1) moments moments'
        (k + ((linesOf sent).length + 1)) = moments' k := by
      intro k
      rw [splice, if_neg (by omega), Nat.add_sub_cancel]
    have h0s : 0 ∉ sent ++ rsetLine ++ s := fun hb => (List.mem_append.mp hb).elim h0 hs
    rw [handleClient_eq h0s hwhole, handleClient_eq h0 hbef, handleClient_eq hs halone,
      h.run_append hpre hpost s, hbefore, List.tail_cons]
    have hnil : linesOf [] = [] := rfl
    simp only [hnil, Lines.run, List.cons_append, List.append_assoc, List.cons.injEq, true_and,
      List.append_cancel_left_eq, List.nil_append]
  constructor
  · intro hres s moments' hs
    exact (hiff s moments' hs _ _ _ (received_singletons _) (received_singletons _)
      (received_singletons _)).mp (hres s moments' hs _ _ _ (received_singletons _)
        (received_singletons _) (received_singletons _))
  · intro hrun s moments' hs whole before alone hwhole hbef halone
    exact (hiff s moments' hs whole before alone hwhole hbef halone).mpr (hrun s moments' hs)

/-- A `MAIL FROM` that is refused, and a `DATA`. -/
def probe : Bytes := ascii "MAIL FROM:x\r\nDATA\r\n"

/-- The probe shows whether there are recipients. -/
theorem run_probe (moments : ℕ → Moment) (st : Session) (hmode : st.isDataRecptMode = false) :
    (run (step x moments) 0 st (linesOf probe)).1 =
      [.reply (ascii ("500 Syntax error, command format unrecognized. " ++
        "Use format MAIL FROM:<youremail>\r\n")),
        .reply (data { st with senderEmail := ascii "x" } x).1] := by
  have hlines : linesOf probe = [ascii "MAIL FROM:x", ascii "DATA"] := by decide
  have htrim : trim (ascii "MAIL FROM:x") = ascii "MAIL FROM:x" := by decide
  have htrim' : trim (ascii "DATA") = ascii "DATA" := by decide
  have hmail : step x moments 0 st (ascii "MAIL FROM:x") =
      ([.reply (ascii ("500 Syntax error, command format unrecognized. " ++
        "Use format MAIL FROM:<youremail>\r\n"))], some { st with senderEmail := ascii "x" }) := by
    rw [step, handleLine_command (by decide) hmode, htrim]
    rfl
  have hdata : step x moments 1 { st with senderEmail := ascii "x" } (ascii "DATA") =
      ([.reply (data { st with senderEmail := ascii "x" } x).1],
        some (data { st with senderEmail := ascii "x" } x).2) := by
    rw [step, handleLine_command (by decide) (by exact hmode), htrim']
    rfl
  rw [hlines, run_cons_some hmail, run_cons_some hdata]
  rfl

/-- **`RSET` makes the connection new exactly when no recipient elsewhere is
remembered.** -/
theorem restores_iff (h : Leaves x moments sent st) :
    Restores x moments sent ↔ st.nonLocalRecipients = [] := by
  rw [h.restores_iff_run]
  constructor
  · intro hrun
    rcases x with _ | _
    · exact run_inv (I := fun st => st.nonLocalRecipients = [])
        (fun n st line st' hst hline => nonLocal_handleLine hst hline) rfl h.state
    · have hprobe := hrun probe (fun _ => .idle) (by decide)
      rw [run_probe _ (rset st) rfl, run_probe _ Session.fresh rfl] at hprobe
      by_contra hne
      have h354 : (data { rset st with senderEmail := ascii "x" } true).1 =
          ascii "354 Start mail input; end with <CRLF>.<CRLF>\r\n" := by
        have hempty : st.nonLocalRecipients.isEmpty = false := by simpa using hne
        have hx : (ascii "x").isEmpty = false := by decide
        simp only [data, rset, hempty, hx, Bool.not_true, Bool.or_false, Bool.and_false,
          Bool.false_eq_true, if_false]
      rw [h354] at hprobe
      revert hprobe
      decide
  · intro hnil s moments' _
    have halike : Alike (rset st) .fresh := by
      refine Or.inr ⟨rfl, true, ?_⟩
      simp only [rset, hnil]
      rfl
    exact run_congr (R := Alike) (d := 0)
      (fun n st₁ st₂ line hst => alike_handleLine hst x (moments' n) line)
      halike (linesOf s)

/-- A connection on which a message has been begun, without recipients. -/
theorem restores_after_mail :
    Restores true (fun _ => .idle) (ascii "MAIL FROM:<a@localhost>\r\n") := by
  have hleaves : Leaves true (fun _ => .idle) (ascii "MAIL FROM:<a@localhost>\r\n")
      { Session.fresh with senderEmail := ascii "a@localhost" } :=
    ⟨by decide, by decide, by decide, rfl⟩
  exact (restores_iff hleaves).mpr rfl

/-- A recipient elsewhere survives the reset, and a refused `MAIL FROM` is then
enough for `DATA`. -/
theorem not_restores_after_rcpt :
    ¬Restores true (fun _ => .idle) (ascii "MAIL FROM:<a@localhost>\r\nRCPT TO:<b@c.d>\r\n") := by
  intro hres
  have hleaves : Leaves true (fun _ => .idle)
      (ascii "MAIL FROM:<a@localhost>\r\nRCPT TO:<b@c.d>\r\n")
      { Session.fresh with senderEmail := ascii "a@localhost",
                           nonLocalRecipients := [ascii "b@c.d"] } :=
    ⟨by decide, by decide, by decide, rfl⟩
  have hrun := hleaves.restores_iff_run.mp hres probe (fun _ => .idle) (by decide)
  revert hrun
  decide

example : linesOf (probe ++ ascii "QUIT") = [ascii "MAIL FROM:x", ascii "DATA"] := by
  decide +kernel

end Restores

end Smtp

end PennCloud
