import PennCloud.Frontend.Mail.Readable
import PennCloud.Frontend.Mail.Transactions

/-!
# Whom a message is for

The final dot of a message is refused when there is nobody to send it to. The answer for
that is never given: `DATA` asks for a sender and for a recipient, and in DATA mode no
line takes them away again. What `PennCloud.Smtp.Ready` says of a state holds from the
first line to the last (`PennCloud.Smtp.ready_always`), with it that a message is only
ever stored in the inboxes of addresses that were accepted.
-/

namespace PennCloud

namespace Smtp

open Wire Calls Text Lines

/-! ### Addresses -/

/-- A local address ends with `@localhost`. -/
theorem suffix_of_isLocal {a : Bytes} (h : isLocal a = true) : ascii "@localhost" <:+ a := by
  rcases hcut : cut (ascii "@localhost") a with _ | ⟨p, q⟩
  · rw [isLocal, hcut] at h
    exact absurd h (by decide)
  · have hq : q = [] := by
      rw [isLocal, hcut] at h
      exact List.isEmpty_iff.mp h
    exact ⟨p, by rw [eq_append_of_cut hcut, hq, List.append_nil]⟩

/-- No angle bracket is left. -/
theorem notMem_unbracket (arg : Bytes) : 60 ∉ unbracket arg ∧ 62 ∉ unbracket arg := by
  constructor
  · intro h
    have h60 := (List.mem_filter.mp (List.mem_filter.mp h).1).2
    exact absurd h60 (by decide)
  · intro h
    exact absurd (List.mem_filter.mp h).2 (by decide)

/-- An address that is accepted had its brackets taken off. -/
theorem notMem_of_rcptAccepted {e : Talk} {a : Bytes} (h : event e = .rcptAccepted a) :
    60 ∉ a ∧ 62 ∉ a := by
  obtain ⟨arg, rfl⟩ : ∃ arg, a = unbracket arg := by
    rw [event] at h
    split_ifs at h with htaken hmode hdot hcompleted
    simp only [commandEvent] at h
    rcases hverb : Verb.ofWord (cmdPart (trim e.line)) with _ | _ | _ | _ | _ | _ | _ | _
    all_goals simp only [hverb] at h
    case rset => exact absurd h Event.noConfusion
    all_goals split_ifs at h
    exact ⟨_, (Event.rcptAccepted.inj h).symm⟩
  exact notMem_unbracket arg

/-- What is due was accepted. -/
theorem mem_of_mem_due {past : List Event} {a : Bytes} (h : a ∈ due past) :
    Event.rcptAccepted a ∈ past := by
  induction past with
  | nil => exact absurd h List.not_mem_nil
  | cons ev past ih =>
    cases ev with
    | rcptAccepted b =>
      rcases List.mem_append.mp h with h | h
      · exact List.mem_cons_of_mem _ (ih h)
      · rw [List.mem_singleton.mp h]
        exact List.mem_cons_self
    | mailAccepted => exact absurd h List.not_mem_nil
    | reset => exact absurd h List.not_mem_nil
    | completed => exact absurd h List.not_mem_nil
    | mailRefused arg => exact List.mem_cons_of_mem _ (ih h)
    | dataStarted => exact List.mem_cons_of_mem _ (ih h)
    | dropped => exact List.mem_cons_of_mem _ (ih h)
    | refused => exact List.mem_cons_of_mem _ (ih h)
    | other => exact List.mem_cons_of_mem _ (ih h)

/-! ### The states of a session -/

/-- **Somebody to deliver to**: what holds of the variables of a session. -/
structure Ready (x : Bool) (st : Session) : Prop where
  /-- In DATA mode there is a sender. -/
  sender : st.isDataRecptMode = true → st.senderEmail ≠ []
  /-- In DATA mode there is a recipient, one elsewhere only with `-x`. -/
  recipient : st.isDataRecptMode = true →
    st.validRecipients ≠ [] ∨ (x = true ∧ st.nonLocalRecipients ≠ [])
  /-- The valid recipients are local. -/
  valid : ∀ a ∈ st.validRecipients, ascii "@localhost" <:+ a ∧ 60 ∉ a ∧ 62 ∉ a
  /-- Without `-x` there are none elsewhere. -/
  without : x = false → st.nonLocalRecipients = []

/-- The part of it that the mode is about. -/
def Addressed (st : Session) : Prop :=
  st.isDataRecptMode = true →
    st.senderEmail ≠ [] ∧ (st.validRecipients ≠ [] ∨ st.nonLocalRecipients ≠ [])

theorem Addressed.of_same {st st' : Session} (h : Addressed st) (henv : SameEnvelope st st') :
    Addressed st' := by
  intro hmode
  rw [henv.sender, henv.valid, henv.nonLocal]
  exact h (henv.mode ▸ hmode)

/-- **One event.** A refused `MAIL FROM` changes the sender, but not in DATA mode. -/
theorem Addressed.step {x : Bool} {st st' : Session} {ev : Event} (h : Addressed st)
    (hmail : ∀ arg, ev = .mailRefused arg → st.isDataRecptMode = false)
    (hstep : Transition x st ev (some st')) : Addressed st' := by
  cases hstep with
  | other henv => exact h.of_same henv
  | refused henv => exact h.of_same henv
  | mailAccepted hvalid hnonLocal hmode hmode' =>
    exact fun hm => absurd (hmode'.symm.trans hm) Bool.false_ne_true
  | mailRefused arg =>
    exact fun hm => absurd ((hmail arg rfl).symm.trans hm) Bool.false_ne_true
  | rcptLocal hsender hlocal => exact fun _ => ⟨hsender, Or.inl (by simp)⟩
  | rcptNonLocal hsender hlocal hx => exact fun _ => ⟨hsender, Or.inr (by simp)⟩
  | dataStarted hsender hrcpt hsender' hvalid hnonLocal =>
    intro _
    rw [hsender', hvalid, hnonLocal]
    exact ⟨hsender, hrcpt⟩
  | reset => exact fun hm => absurd hm Bool.false_ne_true
  | completed hmode hmode' hsender hvalid hnonLocal =>
    exact fun hm => absurd (hmode'.symm.trans hm) Bool.false_ne_true
  | dropped hmode hvalid hnonLocal => exact fun hm => absurd hm Bool.false_ne_true

/-- In DATA mode no line is a `MAIL FROM`. -/
theorem mode_of_mailRefused {e : Talk} {arg : Bytes} (h : event e = .mailRefused arg) :
    e.before.isDataRecptMode = false := by
  rw [event] at h
  split_ifs at h with htaken hmode
  exact Bool.eq_false_of_not_eq_true hmode

/-- What is known of a state and of what came before it. -/
structure Known (x : Bool) (past : List Talk) (st : Session) : Prop where
  recipients : Recipients x (past.map event) st
  addressed : Addressed st

theorem Known.next {x : Bool} {past : List Talk} {e : Talk} {st' : Session}
    (h : Known x past e.before) (hstep : Transition x e.before (event e) (some st')) :
    Known x (e :: past) st' :=
  ⟨h.recipients.step hstep, h.addressed.step (fun _ hmail => mode_of_mailRefused hmail) hstep⟩

/-- A valid recipient was accepted. -/
theorem Known.accepted {x : Bool} {past : List Talk} {st : Session} (h : Known x past st)
    {a : Bytes} (ha : a ∈ st.validRecipients) :
    isLocal a = true ∧ ∃ e ∈ past, event e = .rcptAccepted a := by
  rw [h.recipients.valid] at ha
  obtain ⟨hdue, hlocal⟩ := List.mem_filter.mp ha
  exact ⟨hlocal, List.mem_map.mp (mem_of_mem_due hdue)⟩

theorem Known.ready {x : Bool} {past : List Talk} {st : Session} (h : Known x past st) :
    Ready x st where
  sender hmode := (h.addressed hmode).1
  recipient hmode := by
    refine (h.addressed hmode).2.imp id fun hnonLocal => ⟨?_, hnonLocal⟩
    exact Bool.eq_true_of_not_eq_false fun hx => hnonLocal (h.recipients.without hx)
  valid a ha := by
    obtain ⟨hlocal, e, -, he⟩ := h.accepted ha
    exact ⟨suffix_of_isLocal hlocal, notMem_of_rcptAccepted he⟩
  without := h.recipients.without

/-! ### What is put out -/

/-- The answer for a message that is for nobody. -/
def noRecipients : Output :=
  .reply (ascii "550 Requested action not taken: no valid recipients\r\n")

/-- A notice that a message could not be relayed. -/
def Output.IsNotice : Output → Prop
  | .bounce _ _ _ _ => True
  | _ => False

/-- What the final dot puts out, if there is a recipient. -/
theorem mem_endOfData {x : Bool} {moment : Moment} {st : Session}
    (h : st.validRecipients ≠ [] ∨ st.nonLocalRecipients ≠ []) {o : Output}
    (ho : o ∈ (endOfData moment st x).1) :
    (∃ a ∈ st.validRecipients, o = deliverTo moment st a) ∨
      o ∈ relayAll moment st 0 st.nonLocalRecipients ∨
      o = .reply (ascii "250 Data input complete. Exiting DATA mode.\r\n") := by
  have hnone : ¬(st.validRecipients.isEmpty && st.nonLocalRecipients.isEmpty) = true := by
    rw [Bool.and_eq_true, List.isEmpty_iff, List.isEmpty_iff]
    rintro ⟨hvalid, hnonLocal⟩
    exact h.elim (fun h => h hvalid) fun h => h hnonLocal
  simp only [endOfData, if_neg hnone, List.mem_append, List.mem_singleton] at ho
  rcases ho with (ho | ho) | ho
  · obtain ⟨a, ha, rfl⟩ := List.mem_map.mp ho
    exact Or.inl ⟨a, ha, rfl⟩
  · refine Or.inr (Or.inl ?_)
    split_ifs at ho with hx
    · exact ho
    · exact absurd ho List.not_mem_nil
  · exact Or.inr (Or.inr ho)

/-- Where a message that is relayed is not stored. -/
theorem deposits_relayAll {moment : Moment} {st : Session} {k : ℕ} {recipients : List Bytes}
    {o : Output} (h : o ∈ relayAll moment st k recipients) (hnotice : ¬o.IsNotice) :
    MailEvent.outputDeposits o = [] := by
  induction recipients generalizing k with
  | nil => exact absurd h List.not_mem_nil
  | cons a recipients ih =>
    rcases List.mem_append.mp h with h | h
    · rcases hcut : cut (ascii "@") a with _ | ⟨p, domain⟩
      · rw [relayTo, hcut] at h
        exact absurd h List.not_mem_nil
      · rcases hrelay : moment.relay k domain with ⟨why, timestamp⟩ | mxHost
        · simp only [relayTo, hcut, hrelay, List.mem_singleton] at h
          exact absurd (h ▸ trivial) hnotice
        · simp only [relayTo, hcut, hrelay, List.mem_singleton] at h
          rw [h]
          rfl
    · exact ih h

/-- **What is said of an exchange**, with what came before it. -/
structure Served (x : Bool) (past : List Talk) (e : Talk) : Prop where
  /-- The state the line found. -/
  before : Ready x e.before
  /-- The state the line left. -/
  after : ∀ st ∈ e.after, Ready x st
  /-- A message is not refused for want of a recipient. -/
  notRefused : e.before.isDataRecptMode = true → noRecipients ∉ e.out
  /-- The inboxes a message is stored in, apart from notices, are those of addresses that
  were accepted. -/
  accepted : ∀ o ∈ e.out, ¬o.IsNotice → ∀ d ∈ MailEvent.outputDeposits o, ∀ a,
    d.row = inboxRow a → ∃ e' ∈ past, event e' = .rcptAccepted a

theorem inboxRow_injective : Function.Injective inboxRow := fun _ _ h => List.append_cancel_left h

theorem sentRow_ne_inboxRow (a b : Bytes) : sentRow a ≠ inboxRow b := by
  intro h
  exact absurd (List.cons.inj h).1 (by decide)

/-- What is put out in DATA mode. -/
theorem mem_out_data {x : Bool} {moment : Moment} {st : Session} {line : Bytes}
    (hmode : st.isDataRecptMode = true)
    (hrcpt : st.validRecipients ≠ [] ∨ st.nonLocalRecipients ≠ []) {o : Output}
    (ho : o ∈ (handleLine x moment st line).1) :
    (∃ a ∈ st.validRecipients, o = deliverTo moment st a) ∨
      o ∈ relayAll moment st 0 st.nonLocalRecipients ∨ ∃ text, o = .reply text ∧
        o ≠ noRecipients := by
  by_cases htaken : Taken line
  · by_cases hdot : trim line = ascii "."
    · rw [handleLine_dot htaken hmode hdot] at ho
      refine (mem_endOfData hrcpt ho).imp_right (Or.imp_right fun h => ⟨_, h, ?_⟩)
      rw [h]
      decide
    · rw [handleLine_data htaken hmode hdot] at ho
      exact absurd ho List.not_mem_nil
  · rw [handleLine_of_not_taken htaken] at ho
    split_ifs at ho with hnil
    · exact absurd ho List.not_mem_nil
    · refine Or.inr (Or.inr ⟨_, List.mem_singleton.mp ho, ?_⟩)
      rw [List.mem_singleton.mp ho]
      decide

/-- Outside DATA mode there are only replies. -/
theorem mem_out_command {x : Bool} {moment : Moment} {st : Session} {line : Bytes}
    (hmode : st.isDataRecptMode = false) {o : Output} (ho : o ∈ (handleLine x moment st line).1) :
    ∃ text, o = .reply text := by
  by_cases htaken : Taken line
  · rw [handleLine_command htaken hmode] at ho
    exact ⟨_, List.mem_singleton.mp ho⟩
  · rw [handleLine_of_not_taken htaken] at ho
    split_ifs at ho with hnil
    · exact absurd ho List.not_mem_nil
    · exact ⟨_, List.mem_singleton.mp ho⟩

theorem Known.served {x : Bool} {moments : ℕ → Moment} {n : ℕ} {past : List Talk} {e : Talk}
    (h : Known x past e.before) (he : e = Exchange.of (step x moments) n e.before e.line) :
    Served x past e := by
  have htrans : Transition x e.before (event e) e.after := he ▸ transition_handleLine
  have hout : e.out = (handleLine x (moments n) e.before e.line).1 := congrArg Exchange.out he
  refine ⟨h.ready, fun st hst => ?_, fun hmode => ?_, fun o ho hnotice d hd a hrow => ?_⟩
  · rw [hst] at htrans
    exact (h.next htrans).ready
  · intro hmem
    rw [hout] at hmem
    rcases mem_out_data hmode (h.addressed hmode).2 hmem with ⟨a, -, ho⟩ | ho | ⟨_, -, hne⟩
    · exact absurd ho Output.noConfusion
    · exact target_relayAll ho rfl
    · exact hne rfl
  · rw [hout] at ho
    rcases hmode : e.before.isDataRecptMode with _ | _
    · obtain ⟨text, rfl⟩ := mem_out_command hmode ho
      exact absurd hd List.not_mem_nil
    · rcases mem_out_data hmode (h.addressed hmode).2 ho with ⟨b, hb, rfl⟩ | ho | ⟨text, rfl, -⟩
      · have hrows : d.row = inboxRow b := by
          rcases List.mem_cons.mp hd with rfl | hd
          · rfl
          · split_ifs at hd
            · rw [List.mem_singleton.mp hd] at hrow
              exact absurd hrow (sentRow_ne_inboxRow _ a)
            · exact absurd hd List.not_mem_nil
        rw [← inboxRow_injective (hrows.symm.trans hrow)]
        exact (h.accepted hb).2
      · rw [deposits_relayAll ho hnotice] at hd
        exact absurd hd List.not_mem_nil
      · exact absurd hd List.not_mem_nil

/-- **In every session there is somebody to deliver to**, with `-x` or without, whatever
lines are sent. -/
theorem ready_always (x : Bool) (moments : ℕ → Moment) (lines : List Bytes) :
    Ready x .fresh ∧ Runs.Each (fun before e => Served x before e)
      (exchanges (step x moments) 0 .fresh lines) := by
  have hfresh : Known x [] .fresh :=
    ⟨⟨rfl, rfl, fun _ => rfl⟩, fun hmode => absurd hmode Bool.false_ne_true⟩
  refine ⟨hfresh.ready, fun before e after h => ?_⟩
  have hstep : ∀ past st, Known x past st → ∀ n line st', True →
      (step x moments n st line).2 = some st' →
      Known x (Exchange.of (step x moments) n st line :: past) st' := by
    intro past st hst n line st' _ hst'
    exact hst.next (e := Exchange.of (step x moments) n st line) (hst' ▸ transition_handleLine)
  obtain ⟨hknown, n, he⟩ := exchanges_inv hstep [] hfresh (fun _ _ => trivial) h
  rw [List.append_nil] at hknown
  have hserved := hknown.served he
  show Served x before e
  refine ⟨hserved.before, hserved.after, hserved.notRefused, fun o ho hnotice d hd a hrow => ?_⟩
  obtain ⟨e', he', hevent⟩ := hserved.accepted o ho hnotice d hd a hrow
  exact ⟨e', List.mem_reverse.mp he', hevent⟩

end Smtp

end PennCloud
