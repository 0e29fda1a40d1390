import PennCloud.Frontend.Mail.Connection

/-!
# What a session is about

A client that talks to the mail server sees only what it asks and what it is
answered. `PennCloud.Smtp.event` is an exchange seen this way: a `MAIL FROM` that
was accepted or refused, a recipient that was accepted, a message that was
completed, and so on. `PennCloud.Smtp.Transition` says what each of these events
does to the sender, the two lists of recipients and the mode, and
`PennCloud.Smtp.transition_handleLine` that the server makes no other steps; the two
properties of sessions below are proved from that alone.

**A message goes to its own recipients**, those that were accepted for it
(`PennCloud.Smtp.due`). What the server keeps is more: neither the end of a message
nor `RSET` forgets the recipients elsewhere, so that later messages go to them too
(`PennCloud.Smtp.stale`). And an address without `@` is accepted but never tried.
`PennCloud.Smtp.goes_to_due_iff` says that nothing else can go wrong.

**Commands come in order.** The argument of a `MAIL FROM` that is refused stays
behind as the sender, and a sender is all that `RCPT TO` asks for. When no such
argument stays behind, refused commands change nothing and the order is enforced
(`PennCloud.Smtp.ordered_of_clean`).
-/

namespace PennCloud

namespace Smtp

open Wire Calls Text Lines

/-! ### Events -/

/-- What an exchange is for the client. -/
inductive Event where
  /-- `MAIL FROM` was answered 250. -/
  | mailAccepted
  /-- `MAIL FROM` was not answered 250; its argument. -/
  | mailRefused (arg : Bytes)
  /-- `RCPT TO` was answered 250; the address. -/
  | rcptAccepted (address : Bytes)
  /-- `DATA` was answered 354. -/
  | dataStarted
  /-- `RSET`. -/
  | reset
  /-- A message was completed: its final dot was answered 250. -/
  | completed
  /-- The final dot of a message was not answered 250. -/
  | dropped
  /-- Any other command, when it was answered with a 5xx code. -/
  | refused
  /-- Anything else. -/
  | other
  deriving DecidableEq

/-- An exchange with the mail server. -/
abbrev Talk := Exchange UInt8 Session Output

/-- An answer that begins with the given digits was sent. -/
def answered (digits : String) (out : List Output) : Bool :=
  out.any fun
    | .reply text => (ascii digits).isPrefixOf text
    | _ => false

/-- The event of a command. -/
def commandEvent (currentCommand : Bytes) (out : List Output) : Event :=
  let message := messagePart currentCommand
  let otherwise := if answered "5" out then .refused else .other
  match Verb.ofWord (cmdPart currentCommand) with
  | .mail =>
    if (ascii "FROM:").isPrefixOf message then
      if answered "250" out then .mailAccepted
      else .mailRefused (argument (ascii "FROM:") message)
    else otherwise
  | .rcpt =>
    if (ascii "TO:").isPrefixOf message && answered "250" out then
      .rcptAccepted (unbracket (argument (ascii "TO:") message))
    else otherwise
  | .data => if answered "354" out then .dataStarted else otherwise
  | .rset => .reset
  | _ => otherwise

/-- The event of an exchange. -/
def event (e : Talk) : Event :=
  if ¬Taken e.line then .other
  else if e.before.isDataRecptMode then
    if trim e.line = ascii "." then
      if answered "250" e.out then .completed else .dropped
    else .other
  else commandEvent (trim e.line) e.out

/-- **What the server does is what the exchanges of the lines put out.** -/
theorem handleClient_eq_exchanges {received : List Bytes} (h : ∀ chunk ∈ received, chunk ≠ [])
    (x : Bool) (moments : ℕ → Moment) : handleClient x moments received =
      welcome :: (exchanges (step x moments) 0 .fresh (linesReceived received)).flatMap
        Exchange.out := by
  rw [handleClient_eq_run h, flatMap_out_exchanges]

/-! ### What an event does -/

/-- The sender, the recipients and the mode are the same. -/
structure SameEnvelope (st st' : Session) : Prop where
  sender : st'.senderEmail = st.senderEmail
  valid : st'.validRecipients = st.validRecipients
  nonLocal : st'.nonLocalRecipients = st.nonLocalRecipients
  mode : st'.isDataRecptMode = st.isDataRecptMode

theorem SameEnvelope.refl (st : Session) : SameEnvelope st st := ⟨rfl, rfl, rfl, rfl⟩

/-- What events do to the state of a server, with `-x` or without. -/
inductive Transition (x : Bool) (st : Session) : Event → Option Session → Prop where
  | closed : Transition x st .other none
  | other {st' : Session} (h : SameEnvelope st st') : Transition x st .other (some st')
  | refused {st' : Session} (h : SameEnvelope st st') : Transition x st .refused (some st')
  | mailAccepted {st' : Session} (hvalid : st'.validRecipients = [])
      (hnonLocal : st'.nonLocalRecipients = []) (hmode : st.isDataRecptMode = false)
      (hmode' : st'.isDataRecptMode = false) : Transition x st .mailAccepted (some st')
  | mailRefused (arg : Bytes) :
      Transition x st (.mailRefused arg) (some { st with senderEmail := arg })
  | rcptLocal {a : Bytes} (hsender : st.senderEmail ≠ []) (hlocal : isLocal a = true) :
      Transition x st (.rcptAccepted a)
        (some { st with validRecipients := st.validRecipients ++ [a] })
  | rcptNonLocal {a : Bytes} (hsender : st.senderEmail ≠ []) (hlocal : isLocal a = false)
      (hx : x = true) : Transition x st (.rcptAccepted a)
        (some { st with nonLocalRecipients := st.nonLocalRecipients ++ [a] })
  | dataStarted {st' : Session} (hsender : st.senderEmail ≠ [])
      (hrcpt : st.validRecipients ≠ [] ∨ st.nonLocalRecipients ≠ [])
      (hsender' : st'.senderEmail = st.senderEmail)
      (hvalid : st'.validRecipients = st.validRecipients)
      (hnonLocal : st'.nonLocalRecipients = st.nonLocalRecipients) :
      Transition x st .dataStarted (some st')
  | reset : Transition x st .reset (some (rset st))
  | completed {st' : Session} (hmode : st.isDataRecptMode = true)
      (hmode' : st'.isDataRecptMode = false) (hsender : st'.senderEmail = st.senderEmail)
      (hvalid : st'.validRecipients = [])
      (hnonLocal : st'.nonLocalRecipients = st.nonLocalRecipients) :
      Transition x st .completed (some st')
  | dropped (hmode : st.isDataRecptMode = true) (hvalid : st.validRecipients = [])
      (hnonLocal : st.nonLocalRecipients = []) :
      Transition x st .dropped (some { st with isDataRecptMode := false })

section Steps

variable {x : Bool} {moment : Moment} {st : Session} {line : Bytes}

@[simp] theorem answered_reply (digits : String) (text : Bytes) :
    answered digits [.reply text] = (ascii digits).isPrefixOf text := Bool.or_false _

/-- A command that changes nothing. -/
theorem transition_otherwise (b : Bool) :
    Transition x st (if b = true then .refused else .other) (some st) := by
  rcases b with _ | _
  · exact .other (.refl st)
  · exact .refused (.refl st)

theorem transition_mail (hmode : st.isDataRecptMode = false)
    (hverb : Verb.ofWord (cmdPart line) = .mail) :
    Transition x st (commandEvent line [.reply (mailFrom st (messagePart line)).1])
      (some (mailFrom st (messagePart line)).2) := by
  simp only [commandEvent, hverb, answered_reply]
  by_cases hfrom : (ascii "FROM:").isPrefixOf (messagePart line) = true
  · rw [if_pos hfrom]
    by_cases harg : bracketed (argument (ascii "FROM:") (messagePart line)) = true
    · simp only [mailFrom, if_pos hfrom, if_pos harg]
      exact .mailAccepted rfl rfl hmode hmode
    · simp only [mailFrom, if_pos hfrom, if_neg harg]
      exact .mailRefused _
  · simp only [mailFrom, if_neg hfrom]
    exact transition_otherwise _

theorem transition_rcpt (hverb : Verb.ofWord (cmdPart line) = .rcpt) :
    Transition x st (commandEvent line [.reply (rcptTo st x (messagePart line)).1])
      (some (rcptTo st x (messagePart line)).2) := by
  simp only [commandEvent, hverb, answered_reply]
  by_cases hsender : st.senderEmail.isEmpty = true
  · simp only [rcptTo, if_pos hsender]
    rw [if_neg (by simp only [Bool.and_eq_true, not_and]; exact fun _ => by decide)]
    exact transition_otherwise _
  have hsender' : st.senderEmail ≠ [] := fun h => hsender (List.isEmpty_iff.mpr h)
  by_cases hto : (ascii "TO:").isPrefixOf (messagePart line) = true
  · rw [hto, Bool.true_and]
    by_cases harg : bracketed (argument (ascii "TO:") (messagePart line)) = true
    · rcases hlocal : isLocal (unbracket (argument (ascii "TO:") (messagePart line))) with _ | _
      · rcases x with _ | _
        · simp only [rcptTo, if_neg hsender, if_pos hto, if_pos harg, hlocal, Bool.false_eq_true,
            if_false]
          exact transition_otherwise true
        · simp only [rcptTo, if_neg hsender, if_pos hto, if_pos harg, hlocal, Bool.false_eq_true,
            if_false, if_true]
          exact .rcptNonLocal hsender' hlocal rfl
      · simp only [rcptTo, if_neg hsender, if_pos hto, if_pos harg, hlocal, if_true]
        exact .rcptLocal hsender' hlocal
    · simp only [rcptTo, if_neg hsender, if_pos hto, if_neg harg]
      exact transition_otherwise true
  · simp only [rcptTo, if_neg hsender, Bool.eq_false_of_not_eq_true hto, Bool.false_and]
    exact transition_otherwise true

theorem transition_data (hverb : Verb.ofWord (cmdPart line) = .data) :
    Transition x st (commandEvent line [.reply (data st x).1]) (some (data st x).2) := by
  simp only [commandEvent, hverb, answered_reply]
  by_cases hsender : st.senderEmail.isEmpty = true
  · simp only [data, if_pos hsender]
    exact transition_otherwise true
  by_cases hrcpt : (st.validRecipients.isEmpty && (!x || st.nonLocalRecipients.isEmpty)) = true
  · simp only [data, if_neg hsender, if_pos hrcpt]
    exact transition_otherwise true
  · simp only [data, if_neg hsender, if_neg hrcpt]
    refine .dataStarted (fun h => hsender (List.isEmpty_iff.mpr h)) ?_ rfl rfl rfl
    by_contra hnone
    obtain ⟨hvalid, hnonLocal⟩ := not_or.mp hnone
    refine hrcpt ?_
    rw [not_not.mp hvalid, not_not.mp hnonLocal]
    simp

/-- A command is an event, and does what the event says. -/
theorem transition_command (hmode : st.isDataRecptMode = false) :
    Transition x st (commandEvent line [.reply (command st x line).1]) (command st x line).2 := by
  simp only [command]
  rcases hverb : Verb.ofWord (cmdPart line) with _ | _ | _ | _ | _ | _ | _ | _
  · simp only [commandEvent, hverb]
    exact transition_otherwise false
  · exact transition_mail hmode hverb
  · exact transition_rcpt hverb
  · exact transition_data hverb
  · simp only [commandEvent, hverb]
    exact transition_otherwise false
  · simp only [commandEvent, hverb]
    exact .reset
  · simp only [commandEvent, hverb]
    exact .closed
  · simp only [commandEvent, hverb]
    exact transition_otherwise true

/-- The final dot: the message is completed unless there is nobody to send it
to. -/
theorem transition_endOfData (hmode : st.isDataRecptMode = true) :
    Transition x st
      (if answered "250" (endOfData moment st x).1 = true then .completed else .dropped)
      (some (endOfData moment st x).2) := by
  by_cases hnone : (st.validRecipients.isEmpty && st.nonLocalRecipients.isEmpty) = true
  · simp only [endOfData, if_pos hnone]
    obtain ⟨hvalid, hnonLocal⟩ := (Bool.and_eq_true _ _).mp hnone
    exact .dropped hmode (List.isEmpty_iff.mp hvalid) (List.isEmpty_iff.mp hnonLocal)
  · simp only [endOfData, if_neg hnone]
    have h250 : ∀ out : List Output, answered "250"
        (out ++ [.reply (ascii "250 Data input complete. Exiting DATA mode.\r\n")]) = true := by
      intro out
      rw [answered, List.any_append]
      exact (congrArg _ rfl).trans (Bool.or_true _)
    rw [if_pos (h250 _)]
    exact .completed hmode rfl rfl rfl rfl

theorem sameEnvelope_dataLine (st : Session) (line : Bytes) :
    SameEnvelope st (dataLine st line) := by
  simp only [dataLine]
  split_ifs
  all_goals exact ⟨rfl, rfl, rfl, rfl⟩

/-- **The server makes no other steps.** -/
theorem transition_handleLine :
    Transition x st (event ⟨st, line, (handleLine x moment st line).1,
      (handleLine x moment st line).2⟩) (handleLine x moment st line).2 := by
  by_cases htaken : Taken line
  · rcases hmode : st.isDataRecptMode with _ | _
    · simp only [event, handleLine_command htaken hmode, hmode, if_neg (not_not.mpr htaken),
        Bool.false_eq_true, if_false]
      exact transition_command hmode
    · by_cases hdot : trim line = ascii "."
      · simp only [event, handleLine_dot htaken hmode hdot, hmode, if_neg (not_not.mpr htaken),
          if_true, if_pos hdot]
        exact transition_endOfData hmode
      · simp only [event, handleLine_data htaken hmode hdot, hmode, if_neg (not_not.mpr htaken),
          if_true, if_neg hdot]
        exact .other (sameEnvelope_dataLine st (trim line))
  · simp only [event, if_pos htaken, handleLine_of_not_taken htaken]
    exact .other (.refl st)

end Steps

/-! ### A message goes to its own recipients -/

/-- The addresses a message that is completed now is for: those accepted since the
latest `MAIL FROM` that was accepted, `RSET` or completed message. The latest
event comes first. -/
def due : List Event → List Bytes
  | [] => []
  | .rcptAccepted a :: past => due past ++ [a]
  | .mailAccepted :: _ => []
  | .reset :: _ => []
  | .completed :: _ => []
  | _ :: past => due past

/-- The addresses accepted since the latest `MAIL FROM` that was accepted. -/
def kept : List Event → List Bytes
  | [] => []
  | .rcptAccepted a :: past => kept past ++ [a]
  | .mailAccepted :: _ => []
  | _ :: past => kept past

/-- Those of them that a `RSET` or a completed message came after. -/
def stale : List Event → List Bytes
  | [] => []
  | .mailAccepted :: _ => []
  | .reset :: past => kept past
  | .completed :: past => kept past
  | _ :: past => stale past

theorem kept_eq (past : List Event) : kept past = stale past ++ due past := by
  induction past with
  | nil => rfl
  | cons ev past ih =>
    rcases ev with _ | _ | _ | _ | _ | _ | _ | _ | _ <;> simp [kept, stale, due, ih]

/-- What the server has in its two lists. -/
structure Recipients (x : Bool) (past : List Event) (st : Session) : Prop where
  valid : st.validRecipients = (due past).filter isLocal
  nonLocal : st.nonLocalRecipients = (kept past).filter fun a => !isLocal a
  /-- Without `-x` there are no recipients elsewhere. -/
  without : x = false → st.nonLocalRecipients = []

theorem Recipients.step {x : Bool} {past : List Event} {st st' : Session} {ev : Event}
    (h : Recipients x past st) (hstep : Transition x st ev (some st')) :
    Recipients x (ev :: past) st' := by
  cases hstep with
  | other henv =>
    exact ⟨henv.valid.trans h.valid, henv.nonLocal.trans h.nonLocal,
      fun hx => henv.nonLocal.trans (h.without hx)⟩
  | refused henv =>
    exact ⟨henv.valid.trans h.valid, henv.nonLocal.trans h.nonLocal,
      fun hx => henv.nonLocal.trans (h.without hx)⟩
  | mailAccepted hvalid hnonLocal => exact ⟨hvalid, hnonLocal, fun _ => hnonLocal⟩
  | mailRefused arg => exact ⟨h.valid, h.nonLocal, h.without⟩
  | rcptLocal hsender hlocal =>
    refine ⟨?_, ?_, h.without⟩
    · simp [due, h.valid, hlocal]
    · simp [kept, h.nonLocal, hlocal]
  | rcptNonLocal hsender hlocal hx =>
    refine ⟨?_, ?_, fun hx' => absurd (hx.symm.trans hx') (by decide)⟩
    · simp [due, h.valid, hlocal]
    · simp [kept, h.nonLocal, hlocal]
  | dataStarted hsender hrcpt hsender' hvalid hnonLocal =>
    exact ⟨hvalid.trans h.valid, hnonLocal.trans h.nonLocal,
      fun hx => hnonLocal.trans (h.without hx)⟩
  | reset => exact ⟨rfl, h.nonLocal, h.without⟩
  | completed hmode hmode' hsender hvalid hnonLocal =>
    exact ⟨hvalid, hnonLocal.trans h.nonLocal, fun hx => hnonLocal.trans (h.without hx)⟩
  | dropped hmode hvalid hnonLocal => exact ⟨h.valid, h.nonLocal, h.without⟩

/-- The address a message is delivered or relayed to. -/
def Output.target : Output → Option Bytes
  | .reply _ => none
  | .deliver _ recipient _ _ _ => some recipient
  | .relay recipient _ _ _ => some recipient
  | .bounce _ recipient _ _ => some recipient

/-- The addresses that a list of outputs goes to. -/
def targets (out : List Output) : List Bytes := out.filterMap Output.target

theorem cut_at_eq_none {a : Bytes} : cut (ascii "@") a = none ↔ 64 ∉ a := by
  have hat : ascii "@" = [64] := by decide
  rw [← Option.not_isSome_iff_eq_none, isSome_cut, hat, List.singleton_infix_iff]

/-- An address at `localhost` has an `@`. -/
theorem mem_of_isLocal {a : Bytes} (h : isLocal a = true) : 64 ∈ a := by
  rcases hcut : cut (ascii "@localhost") a with _ | ⟨p, q⟩
  · rw [isLocal, hcut] at h
    exact absurd h (by decide)
  · have hat : (64 : UInt8) ∈ ascii "@localhost" := by decide
    rw [eq_append_of_cut hcut]
    exact List.mem_append_left q (List.mem_append_right p hat)

section Targets

variable (moment : Moment) (st : Session)

/-- Relaying to an address tries it, if it has an `@`. -/
theorem relayTo_cases (k : ℕ) (a : Bytes) :
    (64 ∉ a ∧ relayTo moment st k a = []) ∨
      (64 ∈ a ∧ ∃ o, relayTo moment st k a = [o] ∧ o.target = some a) := by
  rcases hcut : cut (ascii "@") a with _ | ⟨p, domain⟩
  · refine Or.inl ⟨cut_at_eq_none.mp hcut, ?_⟩
    simp only [relayTo, hcut]
  · refine Or.inr ⟨?_, ?_⟩
    · by_contra hmem
      rw [cut_at_eq_none.mpr hmem] at hcut
      exact absurd hcut (by simp)
    · simp only [relayTo, hcut]
      rcases moment.relay k domain with _ | _
      · exact ⟨_, rfl, rfl⟩
      · exact ⟨_, rfl, rfl⟩

/-- Relaying tries the addresses with an `@`. -/
theorem targets_relayAll (k : ℕ) (recipients : List Bytes) :
    targets (relayAll moment st k recipients) = recipients.filter fun a => decide (64 ∈ a) := by
  induction recipients generalizing k with
  | nil => rfl
  | cons a recipients ih =>
    rw [relayAll, targets, List.filterMap_append, ← targets, ← targets, ih]
    rcases relayTo_cases moment st k a with ⟨hmem, hnil⟩ | ⟨hmem, o, ho, htarget⟩
    · rw [hnil, List.filter_cons_of_neg (by simpa using hmem)]
      rfl
    · rw [ho, List.filter_cons_of_pos (by simpa using hmem), targets, List.filterMap_cons, htarget]
      rfl

/-- Where a completed message goes. -/
theorem targets_endOfData (x : Bool) :
    targets (endOfData moment st x).1 = st.validRecipients ++
      if x then st.nonLocalRecipients.filter fun a => decide (64 ∈ a) else [] := by
  have hdeliver : targets (st.validRecipients.map (deliverTo moment st)) = st.validRecipients := by
    rw [targets, List.filterMap_map]
    exact List.filterMap_some
  simp only [endOfData]
  split_ifs with hnone hx hx
  · obtain ⟨hvalid, hnonLocal⟩ := (Bool.and_eq_true _ _).mp hnone
    rw [List.isEmpty_iff.mp hvalid, List.isEmpty_iff.mp hnonLocal]
    rfl
  · obtain ⟨hvalid, -⟩ := (Bool.and_eq_true _ _).mp hnone
    rw [List.isEmpty_iff.mp hvalid]
    rfl
  · have happ := targets_relayAll moment st 0 st.nonLocalRecipients
    rw [targets] at hdeliver happ ⊢
    rw [List.filterMap_append, List.filterMap_append, hdeliver, happ]
    exact List.append_nil _
  · rw [targets] at hdeliver ⊢
    rw [List.filterMap_append, List.filterMap_append, hdeliver]
    exact List.append_nil _

/-- Where the message of an exchange that completes one goes. -/
theorem targets_of_completed {x : Bool} {line : Bytes}
    (h : event ⟨st, line, (handleLine x moment st line).1, (handleLine x moment st line).2⟩ =
      .completed) :
    targets (handleLine x moment st line).1 = st.validRecipients ++
      if x then st.nonLocalRecipients.filter fun a => decide (64 ∈ a) else [] := by
  have hstep : Transition x st .completed (handleLine x moment st line).2 :=
    h ▸ transition_handleLine
  have hmode : st.isDataRecptMode = true := by
    rcases hafter : (handleLine x moment st line).2 with _ | st'
    · rw [hafter] at hstep
      cases hstep
    · rw [hafter] at hstep
      cases hstep with
      | completed hmode => exact hmode
  by_cases htaken : Taken line
  · by_cases hdot : trim line = ascii "."
    · rw [handleLine_dot htaken hmode hdot]
      exact targets_endOfData moment st x
    · simp only [event, hmode, if_neg (not_not.mpr htaken), if_true, if_neg hdot] at h
      exact absurd h (by decide)
  · simp only [event, if_pos htaken] at h
    exact absurd h (by decide)

end Targets

/-- The lists before an exchange of a session. -/
theorem recipients_before {x : Bool} {moments : ℕ → Moment} {lines : List Bytes}
    {pre post : List Talk} {e : Talk}
    (h : exchanges (step x moments) 0 .fresh lines = pre ++ e :: post) :
    Recipients x (pre.reverse.map event) e.before ∧
      ∃ n, e = Exchange.of (step x moments) n e.before e.line := by
  have hstep : ∀ past st, Recipients x (past.map event) st → ∀ n line st', True →
      (step x moments n st line).2 = some st' →
      Recipients x ((Exchange.of (step x moments) n st line :: past).map event) st' := by
    intro past st hst n line st' _ hst'
    rw [List.map_cons]
    exact hst.step (hst' ▸ transition_handleLine)
  have hinv := exchanges_inv hstep [] ⟨rfl, rfl, fun _ => rfl⟩ (fun _ _ => trivial) h
  rwa [List.append_nil] at hinv

/-- The lists hold exactly what is due when nothing stale has an `@` and everything
due has one. -/
theorem perm_due_iff (past : List Event) :
    ((due past).filter isLocal ++
        ((kept past).filter fun a => !isLocal a).filter fun a => decide (64 ∈ a)).Perm (due past) ↔
      (∀ a ∈ due past, 64 ∈ a) ∧ ∀ a ∈ stale past, isLocal a = true ∨ 64 ∉ a := by
  set elsewhere := (due past).filter fun a => !isLocal a with helsewhere
  set old := ((stale past).filter fun a => !isLocal a).filter fun a => decide (64 ∈ a) with hold
  have hsplit : ((due past).filter isLocal ++ elsewhere).Perm (due past) :=
    List.filter_append_perm isLocal (due past)
  have hkept : (((kept past).filter fun a => !isLocal a).filter fun a => decide (64 ∈ a)) =
      old ++ elsewhere.filter fun a => decide (64 ∈ a) := by
    rw [kept_eq, List.filter_append, List.filter_append]
  have hstale : old = [] ↔ ∀ a ∈ stale past, isLocal a = true ∨ 64 ∉ a := by
    rw [hold, List.filter_filter, List.filter_eq_nil_iff]
    refine forall₂_congr fun a _ => ?_
    rcases isLocal a with _ | _ <;> simp
  have hdue : (∀ a ∈ elsewhere, 64 ∈ a) ↔ ∀ a ∈ due past, 64 ∈ a := by
    refine ⟨fun h a ha => ?_, fun h a ha => h a (List.mem_of_mem_filter ha)⟩
    rcases hlocal : isLocal a with _ | _
    · exact h a (List.mem_filter.mpr ⟨ha, by rw [hlocal]; rfl⟩)
    · exact mem_of_isLocal hlocal
  rw [hkept, ← hstale, ← hdue]
  constructor
  · intro hperm
    have hcancel : (old ++ elsewhere.filter fun a => decide (64 ∈ a)).Perm elsewhere :=
      (List.perm_append_left_iff _).mp (hperm.trans hsplit.symm)
    have hall : ∀ a ∈ elsewhere, 64 ∈ a := by
      intro a ha
      rcases List.mem_append.mp (hcancel.mem_iff.mpr ha) with h | h
      · exact of_decide_eq_true (List.mem_filter.mp h).2
      · exact of_decide_eq_true (List.mem_filter.mp h).2
    have hself : (elsewhere.filter fun a => decide (64 ∈ a)) = elsewhere :=
      List.filter_eq_self.mpr fun a ha => decide_eq_true (hall a ha)
    rw [hself] at hcancel
    have hlen := hcancel.length_eq
    rw [List.length_append] at hlen
    exact ⟨hall, List.eq_nil_of_length_eq_zero (by omega)⟩
  · rintro ⟨hall, hnil⟩
    have hself : (elsewhere.filter fun a => decide (64 ∈ a)) = elsewhere :=
      List.filter_eq_self.mpr fun a ha => decide_eq_true (hall a ha)
    rw [hnil, hself]
    exact hsplit

/-- **A completed message goes exactly to its own recipients** if and only if every
address accepted for it has an `@`, and none of those accepted before it for
elsewhere, since the last accepted `MAIL FROM`, has one. -/
theorem goes_to_due_iff {x : Bool} {moments : ℕ → Moment} {lines : List Bytes}
    {pre post : List Talk} {e : Talk}
    (h : exchanges (step x moments) 0 .fresh lines = pre ++ e :: post)
    (hcompleted : event e = .completed) :
    (targets e.out).Perm (due (pre.reverse.map event)) ↔
      (∀ a ∈ due (pre.reverse.map event), 64 ∈ a) ∧
        ∀ a ∈ stale (pre.reverse.map event), isLocal a = true ∨ 64 ∉ a := by
  obtain ⟨hrec, n, he⟩ := recipients_before h
  have htargets : targets e.out = (due (pre.reverse.map event)).filter isLocal ++
      ((kept (pre.reverse.map event)).filter fun a => !isLocal a).filter
        fun a => decide (64 ∈ a) := by
    have hevent : event (Exchange.of (step x moments) n e.before e.line) = .completed :=
      he ▸ hcompleted
    have hout : e.out = (handleLine x (moments n) e.before e.line).1 := congrArg Exchange.out he
    rw [hout, targets_of_completed (moments n) e.before hevent, hrec.valid, ← hrec.nonLocal]
    rcases x with _ | _
    · rw [hrec.without rfl]
      rfl
    · rfl
  rw [htargets]
  exact perm_due_iff _

/-- A message for a recipient at `localhost`. -/
def oneMessage : List Bytes :=
  [ascii "MAIL FROM:<a@localhost>", ascii "RCPT TO:<b@localhost>", ascii "DATA", ascii "."]

theorem oneMessage_goes_to_due : ∃ pre e,
    exchanges (step true fun _ => .idle) 0 .fresh oneMessage = pre ++ [e] ∧
      event e = .completed ∧ (targets e.out).Perm (due (pre.reverse.map event)) :=
  ⟨(exchanges (step true fun _ => .idle) 0 .fresh oneMessage).take 3,
    Exchange.of (step true fun _ => .idle) 3
      { Session.fresh with senderEmail := ascii "a@localhost",
                           validRecipients := [ascii "b@localhost"],
                           isDataRecptMode := true } (ascii "."),
    rfl, by decide,
    (@goes_to_due_iff true (fun _ => .idle) oneMessage _ [] _ rfl (by decide)).mpr (by decide)⟩

/-- A message for a recipient elsewhere, and another one for somebody at
`localhost`. -/
def twoMessages : List Bytes :=
  [ascii "MAIL FROM:<a@localhost>", ascii "RCPT TO:<b@c.d>", ascii "DATA", ascii ".",
    ascii "RCPT TO:<e@localhost>", ascii "DATA", ascii "."]

/-- The second message goes to the recipient of the first one as well. -/
theorem twoMessages_not_due : ∃ pre e,
    exchanges (step true fun _ => .idle) 0 .fresh twoMessages = pre ++ [e] ∧
      event e = .completed ∧ ¬(targets e.out).Perm (due (pre.reverse.map event)) :=
  ⟨(exchanges (step true fun _ => .idle) 0 .fresh twoMessages).take 6,
    Exchange.of (step true fun _ => .idle) 6
      { Session.fresh with senderEmail := ascii "a@localhost",
                           validRecipients := [ascii "e@localhost"],
                           nonLocalRecipients := [ascii "b@c.d"],
                           isDataRecptMode := true } (ascii "."),
    rfl, by decide, by decide⟩

/-! ### Commands come in order -/

/-- Whether the latest `MAIL FROM` since the beginning or the latest `RSET` was
accepted. The latest event comes first. -/
def mailAccepted : List Event → Bool
  | [] => false
  | .mailAccepted :: _ => true
  | .mailRefused _ :: _ => false
  | .reset :: _ => false
  | _ :: past => mailAccepted past

/-- Whether a recipient was accepted since then. -/
def rcptAccepted : List Event → Bool
  | [] => false
  | .rcptAccepted _ :: _ => true
  | .mailAccepted :: _ => false
  | .mailRefused _ :: _ => false
  | .reset :: _ => false
  | _ :: past => rcptAccepted past

/-- The order of commands, for an exchange and what came before it. -/
structure InOrder (past : List Event) (e : Talk) : Prop where
  /-- An exchange answered with a 5xx code changes nothing. -/
  refused : answered "5" e.out = true → ∃ st', e.after = some st' ∧ SameEnvelope e.before st'
  /-- A recipient is accepted only after `MAIL FROM` was. -/
  rcpt : ∀ a, event e = .rcptAccepted a → mailAccepted past = true
  /-- `DATA` is accepted only after a recipient was, too. -/
  data : event e = .dataStarted → mailAccepted past = true ∧ rcptAccepted past = true

/-- The order of commands in a whole session. -/
def Ordered (x : Bool) (moments : ℕ → Moment) (lines : List Bytes) : Prop :=
  ∀ pre e post, exchanges (step x moments) 0 .fresh lines = pre ++ e :: post →
    InOrder (pre.reverse.map event) e

/-- No argument of a refused `MAIL FROM` stays behind as the sender: if there is a
refused one at all, its argument is empty and so is the sender. -/
def Clean (x : Bool) (moments : ℕ → Moment) (lines : List Bytes) : Prop :=
  ∀ e ∈ exchanges (step x moments) 0 .fresh lines, ∀ arg, event e = .mailRefused arg →
    arg = [] ∧ e.before.senderEmail = []

/-- What the state says about the past. -/
structure Envelope (past : List Event) (st : Session) : Prop where
  mail : st.senderEmail ≠ [] → mailAccepted past = true
  rcpt : st.senderEmail ≠ [] → st.validRecipients ≠ [] ∨ st.nonLocalRecipients ≠ [] →
    rcptAccepted past = true
  /-- In DATA mode there is somebody to send to. -/
  mode : st.isDataRecptMode = true → st.validRecipients ≠ [] ∨ st.nonLocalRecipients ≠ []

theorem Envelope.of_same {past : List Event} {st st' : Session} (h : Envelope past st)
    (henv : SameEnvelope st st') : Envelope past st' where
  mail hs := h.mail (henv.sender ▸ hs)
  rcpt hs hr := h.rcpt (henv.sender ▸ hs) (henv.valid ▸ henv.nonLocal ▸ hr)
  mode hm := henv.valid ▸ henv.nonLocal ▸ h.mode (henv.mode ▸ hm)

theorem Envelope.step {x : Bool} {past : List Event} {st st' : Session} {ev : Event}
    (h : Envelope past st)
    (hclean : ∀ arg, ev = .mailRefused arg → arg = [] ∧ st.senderEmail = [])
    (hstep : Transition x st ev (some st')) : Envelope (ev :: past) st' := by
  cases hstep with
  | other henv =>
    have hnext := h.of_same henv
    exact ⟨hnext.mail, hnext.rcpt, hnext.mode⟩
  | refused henv =>
    have hnext := h.of_same henv
    exact ⟨hnext.mail, hnext.rcpt, hnext.mode⟩
  | mailAccepted hvalid hnonLocal hmode hmode' =>
    refine ⟨fun _ => rfl, fun _ hr => ?_, fun hm => absurd (hmode'.symm.trans hm) (by decide)⟩
    exact hr.elim (fun h => absurd hvalid h) (fun h => absurd hnonLocal h)
  | mailRefused arg =>
    obtain ⟨rfl, -⟩ := hclean arg rfl
    exact ⟨fun hs => absurd rfl hs, fun hs => absurd rfl hs, h.mode⟩
  | rcptLocal hsender hlocal =>
    exact ⟨fun _ => h.mail hsender, fun _ _ => rfl, fun _ => Or.inl (by simp)⟩
  | rcptNonLocal hsender hlocal hx =>
    exact ⟨fun _ => h.mail hsender, fun _ _ => rfl, fun _ => Or.inr (by simp)⟩
  | dataStarted hsender hrcpt hsender' hvalid hnonLocal =>
    exact ⟨fun _ => h.mail hsender, fun _ _ => h.rcpt hsender hrcpt,
      fun _ => hvalid ▸ hnonLocal ▸ hrcpt⟩
  | reset =>
    exact ⟨fun hs => absurd rfl hs, fun hs => absurd rfl hs, fun hm => absurd hm Bool.false_ne_true⟩
  | completed hmode hmode' hsender hvalid hnonLocal =>
    refine ⟨fun hs => h.mail (hsender ▸ hs), fun hs hr => ?_,
      fun hm => absurd (hmode'.symm.trans hm) (by decide)⟩
    exact h.rcpt (hsender ▸ hs) (Or.inr (hnonLocal ▸ hr.resolve_left fun hv => hv hvalid))
  | dropped hmode hvalid hnonLocal =>
    exact (h.mode hmode).elim (fun h => absurd hvalid h) (fun h => absurd hnonLocal h)

/-- A message is stored and relayed without an answer to the client. -/
theorem answered_targets {digits : String} {out : List Output}
    (h : ∀ o ∈ out, o.target ≠ none) : answered digits out = false := by
  rw [answered, List.any_eq_false]
  intro o ho
  rcases o with _ | _ | _ | _
  · exact absurd rfl (h _ ho)
  all_goals exact Bool.false_ne_true

theorem target_relayAll {moment : Moment} {st : Session} {k : ℕ} {recipients : List Bytes}
    {o : Output} (h : o ∈ relayAll moment st k recipients) : o.target ≠ none := by
  induction recipients generalizing k with
  | nil => exact absurd h List.not_mem_nil
  | cons a recipients ih =>
    rcases List.mem_append.mp h with h | h
    · rcases relayTo_cases moment st k a with ⟨-, hnil⟩ | ⟨-, o', ho', htarget⟩
      · rw [hnil] at h
        exact absurd h List.not_mem_nil
      · rw [ho'] at h
        rw [List.mem_singleton.mp h, htarget]
        exact Option.some_ne_none a
    · exact ih h

/-- The final dot is answered with a 5xx code only if there is nobody to send
to. -/
theorem answered_endOfData {x : Bool} {moment : Moment} {st : Session}
    (h : answered "5" (endOfData moment st x).1 = true) :
    st.validRecipients = [] ∧ st.nonLocalRecipients = [] := by
  by_cases hnone : (st.validRecipients.isEmpty && st.nonLocalRecipients.isEmpty) = true
  · obtain ⟨hvalid, hnonLocal⟩ := (Bool.and_eq_true _ _).mp hnone
    exact ⟨List.isEmpty_iff.mp hvalid, List.isEmpty_iff.mp hnonLocal⟩
  · have hout : ∀ o ∈ st.validRecipients.map (deliverTo moment st) ++
        (if x then relayAll moment st 0 st.nonLocalRecipients else []), o.target ≠ none := by
      intro o ho
      rcases List.mem_append.mp ho with ho | ho
      · obtain ⟨a, -, rfl⟩ := List.mem_map.mp ho
        exact Option.some_ne_none a
      · rcases x with _ | _
        · exact absurd ho List.not_mem_nil
        · exact target_relayAll ho
    simp only [endOfData, if_neg hnone] at h
    rw [answered, List.any_append, ← answered, answered_targets hout] at h
    exact absurd h (by decide)

/-- A command answered with a 5xx code is one that was refused. -/
theorem commandEvent_of_five {line text : Bytes} (h : (ascii "5").isPrefixOf text = true)
    (hverb : Verb.ofWord (cmdPart line) ≠ .rset) :
    commandEvent line [.reply text] = .refused ∨
      ∃ arg, commandEvent line [.reply text] = .mailRefused arg := by
  obtain ⟨rest, rfl⟩ : ∃ rest, text = 53 :: rest := by
    obtain ⟨rest, hrest⟩ := List.isPrefixOf_iff_prefix.mp h
    exact ⟨rest, hrest.symm⟩
  have h250 : (ascii "250").isPrefixOf (53 :: rest) = false := rfl
  have h354 : (ascii "354").isPrefixOf (53 :: rest) = false := rfl
  simp only [commandEvent, answered_reply, h, h250, h354, Bool.and_false, Bool.false_eq_true,
    if_true, if_false]
  rcases hv : Verb.ofWord (cmdPart line) with _ | _ | _ | _ | _ | _ | _ | _
  case rset => exact absurd hv hverb
  case mail =>
    by_cases hfrom : (ascii "FROM:").isPrefixOf (messagePart line) = true
    · rw [if_pos hfrom]
      exact Or.inr ⟨_, rfl⟩
    · rw [if_neg hfrom]
      exact Or.inl rfl
  all_goals exact Or.inl rfl

/-- An exchange answered with a 5xx code: a command was refused, or a message could
go to nobody. -/
theorem event_of_five {x : Bool} {moment : Moment} {st : Session} {line : Bytes}
    (h : answered "5" (handleLine x moment st line).1 = true) :
    let e : Talk := ⟨st, line, (handleLine x moment st line).1, (handleLine x moment st line).2⟩
    (st.isDataRecptMode = true ∧ st.validRecipients = [] ∧ st.nonLocalRecipients = []) ∨
      event e = .refused ∨ ∃ arg, event e = .mailRefused arg := by
  intro e
  by_cases htaken : Taken line
  · rcases hmode : st.isDataRecptMode with _ | _
    · refine Or.inr ?_
      have hevent : event e = commandEvent (trim line) [.reply (command st x (trim line)).1] := by
        simp only [e, event, if_neg (not_not.mpr htaken), hmode, Bool.false_eq_true, if_false,
          handleLine_command htaken hmode]
      rw [handleLine_command htaken hmode, answered_reply] at h
      rw [hevent]
      refine commandEvent_of_five h fun hverb => ?_
      simp only [command, hverb] at h
      exact absurd h (by decide)
    · by_cases hdot : trim line = ascii "."
      · rw [handleLine_dot htaken hmode hdot] at h
        exact Or.inl ⟨rfl, answered_endOfData h⟩
      · rw [handleLine_data htaken hmode hdot] at h
        exact absurd h Bool.false_ne_true
  · rw [handleLine_of_not_taken htaken] at h
    split_ifs at h
    · exact absurd h Bool.false_ne_true
    · exact absurd h Bool.false_ne_true

/-- **In a session in which no refused `MAIL FROM` leaves its argument behind,
refused commands change nothing and commands come in order.** -/
theorem ordered_of_clean {x : Bool} {moments : ℕ → Moment} {lines : List Bytes}
    (h : Clean x moments lines) : Ordered x moments lines := by
  intro pre e post hsplit
  have hstep : ∀ past st, Envelope (past.map event) st → ∀ n line st',
      (∀ arg, event (Exchange.of (step x moments) n st line) = .mailRefused arg →
        arg = [] ∧ st.senderEmail = []) → (step x moments n st line).2 = some st' →
      Envelope ((Exchange.of (step x moments) n st line :: past).map event) st' := by
    intro past st hst n line st' hclean hst'
    rw [List.map_cons]
    exact hst.step hclean (hst' ▸ transition_handleLine)
  have hfresh : Envelope [] Session.fresh :=
    ⟨fun hs => absurd rfl hs, fun hs => absurd rfl hs, fun hm => absurd hm Bool.false_ne_true⟩
  obtain ⟨henv, n, he⟩ := exchanges_inv hstep [] hfresh h hsplit
  rw [List.append_nil] at henv
  have htrans : Transition x e.before (event e) e.after := he ▸ transition_handleLine
  refine ⟨fun hfive => ?_, fun a ha => ?_, fun hdata => ?_⟩
  · have hfive' : answered "5" (handleLine x (moments n) e.before e.line).1 = true := by
      rw [he] at hfive
      exact hfive
    rcases event_of_five hfive' with ⟨hmode, hvalid, hnonLocal⟩ | hrefused | ⟨arg, hmail⟩
    · exact (henv.mode hmode).elim (fun h => absurd hvalid h) (fun h => absurd hnonLocal h)
    · have hevent : event e = .refused := he ▸ hrefused
      rw [hevent] at htrans
      rcases hafter : e.after with _ | st' <;> rw [hafter] at htrans
      · cases htrans
      · cases htrans with
        | refused hsame => exact ⟨st', rfl, hsame⟩
    · have hevent : event e = .mailRefused arg := he ▸ hmail
      have hmem : e ∈ exchanges (step x moments) 0 .fresh lines := by
        rw [hsplit]
        exact List.mem_append_right pre List.mem_cons_self
      obtain ⟨rfl, hsender⟩ := h e hmem arg hevent
      rw [hevent] at htrans
      rcases hafter : e.after with _ | st' <;> rw [hafter] at htrans
      · cases htrans
      · cases htrans with
        | mailRefused => exact ⟨_, rfl, hsender.symm, rfl, rfl, rfl⟩
  · rw [ha] at htrans
    rcases hafter : e.after with _ | st' <;> rw [hafter] at htrans
    · cases htrans
    · cases htrans with
      | rcptLocal hsender => exact henv.mail hsender
      | rcptNonLocal hsender => exact henv.mail hsender
  · rw [hdata] at htrans
    rcases hafter : e.after with _ | st' <;> rw [hafter] at htrans
    · cases htrans
    · cases htrans with
      | dataStarted hsender hrcpt => exact ⟨henv.mail hsender, henv.rcpt hsender hrcpt⟩

theorem ordered_oneMessage : Ordered true (fun _ => .idle) oneMessage := by
  refine ordered_of_clean fun e he arg hevent => ?_
  have hevents : (exchanges (step true fun _ => .idle) 0 .fresh oneMessage).map event =
      [.mailAccepted, .rcptAccepted (ascii "b@localhost"), .dataStarted, .completed] := by decide
  have hmem := List.mem_map_of_mem (f := event) he
  rw [hevents, hevent] at hmem
  exact absurd hmem (by simp)

/-- A `MAIL FROM` that is refused, and a recipient. -/
def refusedSender : List Bytes := [ascii "MAIL FROM:foo", ascii "RCPT TO:<b@localhost>"]

/-- The refused command changes the sender, and the recipient is accepted. -/
theorem not_ordered_refusedSender : ¬Ordered true (fun _ => .idle) refusedSender := by
  intro h
  have hrcpt := (h [Exchange.of (step true fun _ => .idle) 0 .fresh (ascii "MAIL FROM:foo")]
    (Exchange.of (step true fun _ => .idle) 1
      { Session.fresh with senderEmail := ascii "foo" } (ascii "RCPT TO:<b@localhost>"))
      [] rfl).rcpt
    (ascii "b@localhost") (by decide)
  revert hrcpt
  decide

example : (exchanges (step true fun _ => .idle) 0 .fresh refusedSender).map event =
    [.mailRefused (ascii "foo"), .rcptAccepted (ascii "b@localhost")] := by decide +kernel

end Smtp

end PennCloud
