import PennCloud.Frontend.Mail.Service
import PennCloud.Frontend.Mail.Smtp

/-!
# Deliveries at the same time

A message is delivered to a mailbox in two steps: its body is put into the row,
under its id, and then the id is appended to the list – the list is read, the id is
added to the text, and the text is put back. Web service and mail server do this
each for itself, in processes that know nothing of one another, and nothing is
locked. When two deliveries read the same list before either writes it, the second
write wins and the message of the other one is in the row but on no list
(`PennCloud.delivery_lost`).

As for the listings of the storage service, the race is decided at the write: it is
**undisturbed** when nobody has written the list since it was read. In every
interleaving of any number of deliveries in which all writes are, and no id has a
comma in it, all messages that were stored are on the list in the end, and
everything that was on it before (`PennCloud.deliveries_listed`).

A delivery goes through three phases for each message, and `PennCloud.Follows` says
so of what is left of it: between two messages, with a message that is stored and
not yet listed, and with the text of the list in hand.
-/

namespace PennCloud

open Wire Calls Text

/-! ### Deliveries -/

/-- A delivery: a form of the web service that is sent, or a connection to the mail
server. -/
inductive Delivery where
  /-- `sendEmail`. -/
  | web (env : Surroundings) (postData : Bytes)
  /-- `handle_client`. -/
  | smtp (extraCreditNonLocal : Bool) (moments : ℕ → Smtp.Moment) (received : List Bytes)

/-- The calls on the store that a delivery makes. -/
def Delivery.handler : Delivery → Handler Unit
  | .web env postData => do
    let _ ← sendEmail env postData
    return ()
  | .smtp extraCreditNonLocal moments received =>
    Prog.each Smtp.Output.calls (Smtp.handleClient extraCreditNonLocal moments received)

/-! ### What is left of a delivery -/

/-- Where a delivery stands, with respect to one mailbox. -/
inductive Phase where
  /-- All messages that were stored are listed. -/
  | idle
  /-- A message is stored and not yet listed. -/
  | stored (id : Bytes)
  /-- The list has been read, to add a message to it. -/
  | read (id text : Bytes)

/-- The message that is still to be listed. -/
def Phase.owes : Phase → Option Bytes
  | .idle => none
  | .stored id => some id
  | .read id _ => some id

section Follows

variable (master : Master) (b : Bytes) {α β : Type}

/-- **What is left of a delivery** in a phase. The replies to a `Lookup` and a `Put`
do not depend on the store; that to a `Get` may be any text. -/
def Follows : Phase → Handler α → Prop
  | .idle, .done _ => True
  | phase, .call (.lookup key) k => Follows phase (k (clientText (master key)))
  | .idle, .call (.get _ _) k => ∀ r, Follows .idle (k r)
  | .idle, .call (.update (.put row column _)) k =>
    if row = b then IsEmailId column ∧ Follows (.stored column) (k (ascii "PUT Successful"))
    else Follows .idle (k (ascii "PUT Successful"))
  | .stored id, .call (.get row column) k =>
    (row, column) = (b, metaColumn) ∧ ∀ text, Follows (.read id text) (k text)
  | .read id text, .call (.update u) k =>
    u = .put b metaColumn (appendedMeta text id) ∧ Follows .idle (k (ascii "PUT Successful"))
  | _, _ => False

variable {master b}

/-- One delivery after another. -/
theorem Follows.bind {phase : Phase} {p : Handler α} {f : α → Handler β}
    (hp : Follows master b phase p) (hf : ∀ a, Follows master b .idle (f a)) :
    Follows master b phase (p >>= f) := by
  induction p generalizing phase with
  | done a =>
    cases phase with
    | idle => exact hf a
    | stored id => exact hp.elim
    | read id text => exact hp.elim
  | fail e => cases phase <;> exact hp.elim
  | call c k ih =>
    rcases c with key | ⟨row, column⟩ | u
    · cases phase <;> exact ih _ hp
    · cases phase with
      | idle => exact fun r => ih r (hp r)
      | stored id => exact ⟨hp.1, fun text => ih text (hp.2 text)⟩
      | read id text => exact hp.elim
    · cases phase with
      | idle =>
        rcases u with ⟨row, column, value⟩ | _ | _
        · rw [Follows] at hp
          show if row = b then _ else _
          split_ifs at hp ⊢ with hrow
          · exact ⟨hp.1, ih _ hp.2⟩
          · exact ih _ hp
        · exact hp.elim
        · exact hp.elim
      | stored id => exact hp.elim
      | read id text => exact ⟨hp.1, ih _ hp.2⟩

theorem follows_getWorkerClient {phase : Phase} {row : Bytes} {f : Bool → Handler α} :
    Follows master b phase (getWorkerClient row >>= f) ↔
      Follows master b phase (f (!isErr (clientText (master row)))) := by
  cases phase <;> exact Iff.rfl

/-- A `Put` into another row. -/
theorem follows_Put_of_ne {row column value : Bytes} {f : Bytes → Handler α} (hrow : row ≠ b) :
    Follows master b .idle (Put row column value >>= f) ↔
      Follows master b .idle (f (ascii "PUT Successful")) := by
  show (if row = b then _ else _) ↔ _
  rw [if_neg hrow]
  rfl

/-- A `Put` of a message. -/
theorem follows_Put_self {id body : Bytes} {f : Bytes → Handler α} (hid : IsEmailId id)
    (hf : Follows master b (.stored id) (f (ascii "PUT Successful"))) :
    Follows master b .idle (Put b id body >>= f) := by
  show if b = b then _ else _
  rw [if_pos rfl]
  exact ⟨hid, hf⟩

/-- The id of a message that is stored is appended to the list. -/
theorem follows_append (id : Bytes) {f : Bytes → Handler α}
    (hf : Follows master b .idle (f (ascii "PUT Successful"))) :
    Follows master b (.stored id) (do
      let text ← Get b metaColumn
      let r ← Put b metaColumn (appendedMeta text id)
      f r) :=
  ⟨rfl, fun _ => ⟨rfl, hf⟩⟩

theorem follows_appendToMetadata_of_ne {row : Bytes} (hrow : row ≠ b) (id : Bytes) :
    Follows master b .idle (appendToMetadata row id) := by
  refine follows_getWorkerClient.mpr ?_
  cases !isErr (clientText (master row)) with
  | false => exact trivial
  | true => exact fun _ => (follows_Put_of_ne hrow).mpr trivial

theorem follows_appendToMetadata_self {id : Bytes}
    (hreach : isErr (clientText (master b)) = false) :
    Follows master b (.stored id) (appendToMetadata b id) := by
  refine follows_getWorkerClient.mpr ?_
  rw [hreach]
  exact follows_append id trivial

variable {row id body : Bytes} (hid : IsEmailId id)
include hid

/-- A message that the web service stores. -/
theorem follows_storeEmail : Follows master b .idle (storeEmail row id body) := by
  refine follows_getWorkerClient.mpr ?_
  cases hreach : isErr (clientText (master row)) with
  | true => exact trivial
  | false =>
    rcases eq_or_ne row b with rfl | hrow
    · exact follows_Put_self hid ((follows_appendToMetadata_self hreach).bind fun _ => trivial)
    · exact (follows_Put_of_ne hrow).mpr
        ((follows_appendToMetadata_of_ne hrow id).bind fun _ => trivial)

/-- A message that the mail server stores. -/
theorem follows_store : Follows master b .idle (Smtp.store row id body) := by
  refine follows_getWorkerClient.mpr ?_
  cases hreach : isErr (clientText (master row)) with
  | true =>
    rcases eq_or_ne row b with rfl | hrow
    · refine follows_getWorkerClient.mpr ?_
      rw [hreach]
      exact trivial
    · exact follows_appendToMetadata_of_ne hrow id
  | false =>
    rcases eq_or_ne row b with rfl | hrow
    · exact follows_Put_self hid (follows_appendToMetadata_self hreach)
    · exact (follows_Put_of_ne hrow).mpr (follows_appendToMetadata_of_ne hrow id)

omit hid

theorem follows_sendDeliveryFailure (sender failedRecipient reason timestamp : Bytes) :
    Follows master b .idle (Smtp.sendDeliveryFailure sender failedRecipient reason timestamp) := by
  have hid := isEmailId_emailId (ascii "mailer-daemon@localhost") sender
    (ascii "Delivery Failed to " ++ failedRecipient) timestamp
  refine follows_getWorkerClient.mpr ?_
  cases !isErr (clientText (master (inboxRow sender))) with
  | false => exact trivial
  | true =>
    rcases eq_or_ne (inboxRow sender) b with rfl | hrow
    · exact follows_Put_self hid (follows_append _ trivial)
    · exact (follows_Put_of_ne hrow).mpr fun _ => (follows_Put_of_ne hrow).mpr trivial

theorem follows_calls (o : Smtp.Output) : Follows master b .idle o.calls := by
  cases o with
  | reply text => exact trivial
  | deliver sender recipient subject timestamp body =>
    have hid := isEmailId_emailId sender recipient subject timestamp
    refine (follows_store hid).bind fun _ => ?_
    split_ifs with hlocal
    · exact follows_store hid
    · exact trivial
  | relay recipient mxHost relayPort texts => exact trivial
  | bounce sender recipient reason timestamp =>
    exact follows_sendDeliveryFailure sender recipient reason timestamp

theorem follows_sendMessage (env : Surroundings) (sender recipient subject body : Bytes) :
    Follows master b .idle (sendMessage env sender recipient subject body) := by
  have hid := isEmailId_emailId sender recipient subject env.timestamp
  have hsent : Follows master b .idle (storeEmail (sentRow sender) _ body) :=
    follows_storeEmail hid
  rw [sendMessage]
  split_ifs with hexternal
  · exact hsent.bind fun _ => trivial
  · exact (follows_storeEmail hid).bind fun _ => hsent.bind fun _ => trivial

/-- **A delivery goes through the phases**, whatever is sent. -/
theorem follows_handler (d : Delivery) : Follows master b .idle d.handler := by
  cases d with
  | web env postData => exact (follows_sendMessage env _ _ _ _).bind fun _ => trivial
  | smtp x moments received =>
    show Follows master b .idle (Prog.each _ (Smtp.handleClient x moments received))
    induction Smtp.handleClient x moments received with
    | nil => exact trivial
    | cons o out ih => exact (follows_calls o).bind fun _ => ih

end Follows

/-! ### Interleavings -/

/-- The call writes a cell. -/
def Call.Writes (cell : Bytes × Bytes) : Call → Prop
  | .lookup _ => False
  | .get _ _ => False
  | .update u => u.cell = cell

/-- Deliveries, each with what is left of it. -/
abbrev DeliveryRace (ι : Type) := Config ι Call Bytes Abort Tablet Unit

namespace DeliveryRace

variable {ι : Type} [DecidableEq ι] (b : Bytes)

/-- All deliveries are about to begin. -/
def start (kvs : Tablet) (deliveries : ι → Delivery) : DeliveryRace ι :=
  Config.start kvs fun i => (deliveries i).handler

/-- The ids on the list of the mailbox. -/
def listed (s : DeliveryRace ι) : List Bytes := listedIds (s.store.text b metaColumn)

/-- Delivery `i` has read the list, and nobody has written it since. -/
def UpToDate (s : DeliveryRace ι) (i : ι) : Prop :=
  Since (fun c => c = .get b metaColumn) (Call.Writes (b, metaColumn)) i s.trace

/-- **The next call of delivery `i` is undisturbed**: if it writes the list, the
delivery knows what is on it, and if it stores a message, the id has no comma. -/
def Undisturbed (s : DeliveryRace ι) (i : ι) : Prop :=
  ∀ column value k, s.progs i = .call (.update (.put b column value)) k →
    if column = metaColumn then s.UpToDate b i else 44 ∉ column

instance : DecidablePred (Call.Writes (b, metaColumn))
  | .lookup _ => inferInstanceAs (Decidable False)
  | .get _ _ => inferInstanceAs (Decidable False)
  | .update u => inferInstanceAs (Decidable (u.cell = (b, metaColumn)))

instance (s : DeliveryRace ι) (i : ι) : Decidable (s.UpToDate b i) :=
  inferInstanceAs (Decidable (Since _ _ i s.trace))

instance (s : DeliveryRace ι) (i : ι) : Decidable (s.Undisturbed b i) :=
  match h : s.progs i with
  | .call (.update (.put row column value)) k =>
    decidable_of_iff (row = b → if column = metaColumn then s.UpToDate b i else 44 ∉ column) (by
      constructor
      · intro hrow column' value' k' hprog
        obtain ⟨hc, -⟩ := Prog.call.inj (h.symm.trans hprog)
        obtain ⟨rfl, rfl, -⟩ := Update.put.inj (Call.update.inj hc)
        exact hrow rfl
      · rintro hun rfl
        exact hun column value k h)
  | .done _ => isTrue fun _ _ _ hprog => by cases h.symm.trans hprog
  | .fail _ => isTrue fun _ _ _ hprog => by cases h.symm.trans hprog
  | .call (.lookup _) _ => isTrue fun _ _ _ hprog => by cases h.symm.trans hprog
  | .call (.get _ _) _ => isTrue fun _ _ _ hprog => by cases h.symm.trans hprog
  | .call (.update (.cput _ _ _ _)) _ => isTrue fun _ _ _ hprog => by cases h.symm.trans hprog
  | .call (.update (.delete _ _)) _ => isTrue fun _ _ _ hprog => by cases h.symm.trans hprog

/-- Delivery `i` has stored a message in the mailbox. -/
def Delivered (s : DeliveryRace ι) (i : ι) (id : Bytes) : Prop :=
  id ≠ metaColumn ∧ ∃ body, (i, Call.update (.put b id body)) ∈ s.trace

/-- **Everything is listed**: all messages that were delivered, and what was listed
before. -/
structure AllListed (before : List Bytes) (s : DeliveryRace ι) : Prop where
  delivered : ∀ i id, s.Delivered b i id → id ∈ s.listed b
  before : ∀ id ∈ before, id ∈ s.listed b

/-! ### The invariant -/

/-- Where delivery `i` stands. -/
structure Stands (master : Master) (s : DeliveryRace ι) (i : ι) (phase : Phase) : Prop where
  follows : Follows master b phase (s.progs i)
  delivered : ∀ id, s.Delivered b i id → id ∈ s.listed b ∨ phase.owes = some id
  owes : ∀ id, phase.owes = some id → IsEmailId id ∧ 44 ∉ id
  knows : ∀ id text, phase = .read id text → s.UpToDate b i → listedIds text = s.listed b

/-- The invariant of undisturbed interleavings. -/
structure Inv (master : Master) (before : List Bytes) (s : DeliveryRace ι) : Prop where
  stands : ∀ i, ∃ phase, s.Stands b master i phase
  before : ∀ id ∈ before, id ∈ s.listed b

variable {b} {s : DeliveryRace ι} {i : ι} {master : Master} {before : List Bytes}

/-- The configuration after a call of delivery `i`. -/
def after (s : DeliveryRace ι) (i : ι) (c : Call) (kvs : Tablet) (p : Handler Unit) :
    DeliveryRace ι :=
  ⟨kvs, Function.update s.progs i p, (i, c) :: s.trace⟩

section After

variable {c : Call} {kvs' : Tablet} {p : Handler Unit} {phase phase' : Phase}

@[simp] theorem progs_after : (s.after i c kvs' p).progs i = p := Function.update_self ..

@[simp] theorem listed_after :
    (s.after i c kvs' p).listed b = listedIds (kvs'.text b metaColumn) := rfl

/-- What another delivery has stored. -/
theorem delivered_after_of_ne {j : ι} (hj : j ≠ i) {id : Bytes} :
    (s.after i c kvs' p).Delivered b j id ↔ s.Delivered b j id := by
  refine and_congr_right fun _ => exists_congr fun body => ?_
  rw [after, List.mem_cons]
  exact or_iff_right fun h => hj (Prod.mk.inj h).1

/-- What a delivery has stored after a call that stores nothing. -/
theorem delivered_after (hput : ∀ id body, c = .update (.put b id body) → id = metaColumn)
    {id : Bytes} : (s.after i c kvs' p).Delivered b i id ↔ s.Delivered b i id := by
  refine and_congr_right fun hne => exists_congr fun body => ?_
  rw [after, List.mem_cons]
  exact or_iff_right fun h => hne (hput id body (Prod.mk.inj h).2.symm)

/-- The others after a call of delivery `i`: they know the list only if it was not
written. -/
theorem Stands.other {j : ι} (hj : j ≠ i) (h : s.Stands b master j phase)
    (hgrow : ∀ id ∈ s.listed b, id ∈ listedIds (kvs'.text b metaColumn))
    (hkeep : c.Writes (b, metaColumn) ∨ listedIds (kvs'.text b metaColumn) = s.listed b) :
    (s.after i c kvs' p).Stands b master j phase where
  follows := by
    have hprog : (s.after i c kvs' p).progs j = s.progs j := Function.update_of_ne hj _ _
    rw [hprog]
    exact h.follows
  delivered id hid := (h.delivered id ((delivered_after_of_ne hj).mp hid)).imp_left (hgrow id)
  owes := h.owes
  knows id text hphase hup := by
    obtain ⟨hnot, hold⟩ := (since_cons_of_ne hj).mp hup
    exact (h.knows id text hphase hold).trans (hkeep.resolve_left hnot).symm

/-- Delivery `i` after a call that neither stores a message nor writes the list. -/
theorem Stands.quiet (h : s.Stands b master i phase)
    (hput : ∀ id body, c = .update (.put b id body) → id = metaColumn)
    (hlisted : listedIds (kvs'.text b metaColumn) = s.listed b)
    (hfollows : Follows master b phase' p) (howes : phase'.owes = phase.owes)
    (hknows : ∀ id text, phase' = .read id text → (s.after i c kvs' p).UpToDate b i →
      listedIds text = s.listed b) :
    (s.after i c kvs' p).Stands b master i phase' where
  follows := by
    rw [progs_after]
    exact hfollows
  delivered id hid := by
    rw [listed_after, hlisted, howes]
    exact h.delivered id ((delivered_after hput).mp hid)
  owes id hid := h.owes id (howes ▸ hid)
  knows id text hphase hup := by
    rw [listed_after, hlisted]
    exact hknows id text hphase hup

/-- A call of delivery `i` after which the list has everything it had. -/
theorem Inv.after (h : Inv b master before s)
    (hgrow : ∀ id ∈ s.listed b, id ∈ listedIds (kvs'.text b metaColumn))
    (hkeep : c.Writes (b, metaColumn) ∨ listedIds (kvs'.text b metaColumn) = s.listed b)
    (hi : (s.after i c kvs' p).Stands b master i phase) :
    Inv b master before (s.after i c kvs' p) where
  stands j := by
    rcases eq_or_ne j i with rfl | hj
    · exact ⟨phase, hi⟩
    · obtain ⟨phase', hj'⟩ := h.stands j
      exact ⟨phase', hj'.other hj hgrow hkeep⟩
  before id hid := hgrow id (h.before id hid)

/-- A call that leaves the list as it is. -/
theorem Inv.keep (h : Inv b master before s)
    (hlisted : listedIds (kvs'.text b metaColumn) = s.listed b)
    (hi : (s.after i c kvs' p).Stands b master i phase) :
    Inv b master before (s.after i c kvs' p) :=
  h.after (fun _ hid => hlisted ▸ hid) (Or.inr hlisted) hi

end After

omit [DecidableEq ι] in
/-- A `Put` into another cell leaves the list as it is. -/
theorem listed_put_of_ne {row column value : Bytes} (hne : (b, metaColumn) ≠ (row, column)) :
    listedIds ((Call.exec master (.update (.put row column value)) s.store).2.text b metaColumn) =
      s.listed b :=
  listedIds_text_congr (Call.cells_exec_of_ne master s.store hne)

/-! ### One call -/

section Step

variable (h : Inv b master before s)
include h

/-- A `Lookup`. -/
theorem Inv.step_lookup {phase : Phase} (hi : s.Stands b master i phase) {key : Bytes}
    {k : Bytes → Handler Unit} (hprog : s.progs i = .call (.lookup key) k) :
    Inv b master before (s.after i (.lookup key) s.store (k (clientText (master key)))) := by
  have hfollows : Follows master b phase (k (clientText (master key))) := by
    have hfollows := hi.follows
    rw [hprog] at hfollows
    cases phase <;> exact hfollows
  refine h.keep rfl (hi.quiet (fun id body hc => by cases hc) rfl hfollows rfl ?_)
  intro id text hphase hup
  rcases hup with ⟨-, hread⟩ | ⟨-, hold⟩
  · cases hread
  · exact hi.knows id text hphase hold

/-- A `Get`: of anything between two messages, and of the list if there is a message
to add to it. -/
theorem Inv.step_get {phase : Phase} (hi : s.Stands b master i phase) {row column : Bytes}
    {k : Bytes → Handler Unit} (hprog : s.progs i = .call (.get row column) k) :
    Inv b master before (s.after i (.get row column) s.store (k (s.store.text row column))) := by
  have hfollows := hi.follows
  rw [hprog] at hfollows
  have hput : ∀ id body, Call.get row column = .update (.put b id body) → id = metaColumn :=
    fun id body hc => by cases hc
  cases phase with
  | idle =>
      exact h.keep rfl (hi.quiet hput rfl (hfollows _) rfl fun id text hphase => by cases hphase)
  | stored id =>
    obtain ⟨hcell, hk⟩ := hfollows
    obtain ⟨rfl, rfl⟩ := Prod.mk.inj hcell
    refine h.keep rfl (hi.quiet hput rfl (hk _) rfl fun id' text hphase _ => ?_)
    obtain ⟨-, rfl⟩ := Phase.read.inj hphase
    rfl
  | read id text => exact hfollows.elim

/-- A `Put` into another row. -/
theorem Inv.step_elsewhere (hi : s.Stands b master i .idle) {row column value : Bytes}
    {k : Bytes → Handler Unit} (hrow : row ≠ b)
    (hk : Follows master b .idle (k (ascii "PUT Successful"))) :
    Inv b master before (s.after i (.update (.put row column value))
      (Call.exec master (.update (.put row column value)) s.store).2
      (k (ascii "PUT Successful"))) := by
  have hlisted : listedIds ((Call.exec master (.update (.put row column value)) s.store).2.text b
      metaColumn) = s.listed b :=
    listed_put_of_ne fun heq => hrow (Prod.mk.inj heq).1.symm
  refine h.keep hlisted (hi.quiet ?_ hlisted hk rfl fun id text hphase => by cases hphase)
  intro id body hc
  exact absurd (Update.put.inj (Call.update.inj hc)).1 hrow

/-- A message is stored. -/
theorem Inv.step_store (hi : s.Stands b master i .idle) {id body : Bytes}
    {k : Bytes → Handler Unit} (hid : IsEmailId id) (hcomma : 44 ∉ id)
    (hk : Follows master b (.stored id) (k (ascii "PUT Successful"))) :
    Inv b master before (s.after i (.update (.put b id body))
      (Call.exec master (.update (.put b id body)) s.store).2 (k (ascii "PUT Successful"))) := by
  have hlisted : listedIds ((Call.exec master (.update (.put b id body)) s.store).2.text b
      metaColumn) = s.listed b :=
    listed_put_of_ne fun heq => hid.ne_metaColumn (Prod.mk.inj heq).2.symm
  have hstored : (s.after i (.update (.put b id body))
      (Call.exec master (.update (.put b id body)) s.store).2
      (k (ascii "PUT Successful"))).Stands b master i (.stored id) := by
    refine ⟨?_, fun id' hdelivered => ?_, fun id' howes => ?_,
      fun id' text hphase => by cases hphase⟩
    · rw [progs_after]
      exact hk
    · rw [listed_after, hlisted]
      obtain ⟨hne, body', hmem⟩ := hdelivered
      rcases List.mem_cons.mp hmem with heq | hmem
      · have hput := Update.put.inj (Call.update.inj (Prod.mk.inj heq).2)
        exact Or.inr (congrArg some hput.2.1.symm)
      · exact Or.inl ((hi.delivered id' ⟨hne, body', hmem⟩).resolve_right fun howes =>
          by cases howes)
    · obtain rfl := Option.some.inj howes
      exact ⟨hid, hcomma⟩
  exact h.keep hlisted hstored

/-- The list is written, by a delivery that knows what is on it. -/
theorem Inv.step_list {id text : Bytes} (hi : s.Stands b master i (.read id text))
    (hup : s.UpToDate b i) {k : Bytes → Handler Unit}
    (hk : Follows master b .idle (k (ascii "PUT Successful"))) :
    Inv b master before (s.after i (.update (.put b metaColumn (appendedMeta text id)))
      (Call.exec master (.update (.put b metaColumn (appendedMeta text id))) s.store).2
      (k (ascii "PUT Successful"))) := by
  obtain ⟨hid, hcomma⟩ := hi.owes id rfl
  have hmem : ∀ e, e ∈ listedIds ((Call.exec master
      (.update (.put b metaColumn (appendedMeta text id))) s.store).2.text b metaColumn) ↔
        e ∈ s.listed b ∨ e = id := by
    intro e
    have hcell : (Call.exec master (.update (.put b metaColumn (appendedMeta text id)))
        s.store).2.cells (b, metaColumn) = some (appendedMeta text id) := by
      rw [Call.cells_exec_put, Function.update_self]
    rw [Tablet.text_of_some hcell, hid.listedIds_appendedMeta hcomma, hi.knows id text rfl hup,
      List.mem_append, List.mem_singleton]
  have hidle : (s.after i (.update (.put b metaColumn (appendedMeta text id)))
      (Call.exec master (.update (.put b metaColumn (appendedMeta text id))) s.store).2
      (k (ascii "PUT Successful"))).Stands b master i .idle := by
    refine ⟨?_, fun e he => ?_, fun e howes => ?_, fun e text' hphase => by cases hphase⟩
    · rw [progs_after]
      exact hk
    · have hput : ∀ e' body, Call.update (.put b metaColumn (appendedMeta text id)) =
          .update (.put b e' body) → e' = metaColumn :=
        fun e' body hc => (Update.put.inj (Call.update.inj hc)).2.1.symm
      refine Or.inl ((hmem e).mpr ((hi.delivered e ((delivered_after hput).mp he)).imp_right ?_))
      exact fun howes => (Option.some.inj howes).symm
    · cases howes
  exact h.after (fun e he => (hmem e).mpr (Or.inl he)) (Or.inl rfl) hidle

/-- A write: of a message, or of the list. -/
theorem Inv.step_update {phase : Phase} (hi : s.Stands b master i phase)
    (hun : s.Undisturbed b i) {u : Update} {k : Bytes → Handler Unit}
    (hprog : s.progs i = .call (.update u) k) :
    Inv b master before (s.after i (.update u) (Call.exec master (.update u) s.store).2
      (k (Call.exec master (.update u) s.store).1)) := by
  have hfollows := hi.follows
  rw [hprog] at hfollows
  cases phase with
  | idle =>
    rcases u with ⟨row, column, value⟩ | _ | _
    · rw [Follows] at hfollows
      split_ifs at hfollows with hrow
      · obtain rfl := hrow
        have hcomma := hun column value k hprog
        rw [if_neg hfollows.1.ne_metaColumn] at hcomma
        exact h.step_store hi hfollows.1 hcomma hfollows.2
      · exact h.step_elsewhere hi hrow hfollows
    · exact hfollows.elim
    · exact hfollows.elim
  | stored id => exact hfollows.elim
  | read id text =>
    obtain ⟨rfl, hk⟩ := hfollows
    have hup := hun metaColumn _ k hprog
    rw [if_pos rfl] at hup
    exact h.step_list hi hup hk

end Step

/-- **One call keeps the invariant**, provided it is undisturbed. -/
theorem Inv.step (h : Inv b master before s) (hun : s.Undisturbed b i) :
    Inv b master before (Config.step (Call.exec master) s i) := by
  refine Config.inv_step h fun c k hprog => ?_
  obtain ⟨phase, hi⟩ := h.stands i
  rcases c with key | ⟨row, column⟩ | u
  · exact h.step_lookup hi hprog
  · exact h.step_get hi hprog
  · exact h.step_update hi hun hprog

omit [DecidableEq ι] in
theorem inv_start (kvs : Tablet) (deliveries : ι → Delivery) :
    Inv b master (listedIds (kvs.text b metaColumn)) (start kvs deliveries) where
  stands i := by
    refine ⟨.idle, follows_handler (deliveries i), fun id hid => ?_, fun id hid => ?_,
      fun id text hphase => ?_⟩
    · obtain ⟨-, body, hmem⟩ := hid
      cases hmem
    · cases hid
    · cases hphase
  before _ hid := hid

omit [DecidableEq ι] in
/-- When all deliveries have come to their end, nothing is left to be listed. -/
theorem Inv.allListed (h : Inv b master before s) (hdone : ∀ i, s.progs i = .done ()) :
    s.AllListed b before where
  delivered i id hid := by
    obtain ⟨phase, hi⟩ := h.stands i
    have hfollows := hi.follows
    rw [hdone i] at hfollows
    cases phase with
    | idle => exact (hi.delivered id hid).resolve_right fun howes => by cases howes
    | stored id' => exact hfollows.elim
    | read id' text => exact hfollows.elim
  before := h.before

end DeliveryRace

/-- **Undisturbed deliveries are all listed**, however many there are and however
their calls are interleaved. -/
theorem deliveries_listed {ι : Type} [DecidableEq ι] {master : Master} {b : Bytes} {kvs : Tablet}
    {deliveries : ι → Delivery} {s : DeliveryRace ι}
    (h : Runs.Reaches (Config.step (Call.exec master)) (DeliveryRace.Undisturbed b)
      (DeliveryRace.start kvs deliveries) s)
    (hdone : ∀ i, s.progs i = .done ()) :
    s.AllListed b (listedIds (kvs.text b metaColumn)) := by
  have hinv : DeliveryRace.Inv b master (listedIds (kvs.text b metaColumn)) s :=
    h.invariant (DeliveryRace.inv_start kvs deliveries) fun t i ht hi => ht.step hi
  exact hinv.allListed hdone

/-! ### Two messages for one mailbox -/

/-- A form in which a user writes to another. -/
def formToBob : Bytes := ascii "username=ann@localhost&to=bob@localhost&subject=a&body=b"

/-- A connection over which somebody elsewhere writes to the same user. -/
def mailToBob : Bytes :=
  ascii ("MAIL FROM:<eve@x.org>\r\nRCPT TO:<bob@localhost>\r\nDATA\r\nc\r\n.\r\nQUIT\r\n")

/-- The two deliveries. -/
def twoDeliveries : Bool → Delivery
  | false => .web ⟨ascii "2025-05-01 10:00:00", true⟩ formToBob
  | true => .smtp false (fun _ => ⟨0, [], ascii "2025-05-01 10:00:00", 0,
      fun _ _ => .failed .mxRecord []⟩) [mailToBob]

/-- The row of the user. -/
def bobsInbox : Bytes := inboxRow (ascii "bob@localhost")

/-- The ids of the two messages. -/
def twoIds : Bool → Bytes
  | false => emailId (ascii "ann@localhost") (ascii "bob@localhost") (ascii "a")
      (ascii "2025-05-01 10:00:00")
  | true => emailId (ascii "eve@x.org") (ascii "bob@localhost") (ascii "No Subject")
      (ascii "2025-05-01 10:00:00")

/-- One after the other, both are listed. -/
theorem listed_one_by_one : DeliveryRace.AllListed bobsInbox
    (listedIds ((∅ : Tablet).text bobsInbox metaColumn))
    ((List.replicate 10 false ++ List.replicate 5 true).foldl (Config.step (Call.exec Master.first))
      (DeliveryRace.start ∅ twoDeliveries)) := by
  have halong : Runs.Along (Config.step (Call.exec Master.first))
      (DeliveryRace.Undisturbed bobsInbox) (DeliveryRace.start ∅ twoDeliveries)
      (List.replicate 10 false ++ List.replicate 5 true) := by decide +kernel
  refine deliveries_listed (Runs.Reaches.of_along halong) ?_
  rintro (_ | _)
  · rfl
  · rfl

/-- **A delivery is lost** when the web service has read the list and the mail server
writes it before the web service does. -/
theorem delivery_lost : ∃ s : DeliveryRace Bool,
    Runs.Reaches (Config.step (Call.exec Master.first)) (fun _ _ => True)
      (DeliveryRace.start ∅ twoDeliveries) s ∧
    (∀ i, s.progs i = .done ()) ∧ (∀ i, s.Delivered bobsInbox i (twoIds i)) ∧
    twoIds false ≠ twoIds true ∧ twoIds true ∉ s.listed bobsInbox ∧
    ¬s.AllListed bobsInbox (listedIds ((∅ : Tablet).text bobsInbox metaColumn)) := by
  have hdelivered : ∀ i, DeliveryRace.Delivered bobsInbox
      ((List.replicate 4 false ++ List.replicate 5 true ++ List.replicate 6 false).foldl
        (Config.step (Call.exec Master.first)) (DeliveryRace.start ∅ twoDeliveries)) i
      (twoIds i) := by
    rintro (_ | _)
    · exact ⟨by decide, ascii "b", by decide +kernel⟩
    · exact ⟨by decide, ascii "c\n", by decide +kernel⟩
  have hlost : twoIds true ∉ DeliveryRace.listed bobsInbox
      ((List.replicate 4 false ++ List.replicate 5 true ++ List.replicate 6 false).foldl
        (Config.step (Call.exec Master.first)) (DeliveryRace.start ∅ twoDeliveries)) := by
    decide +kernel
  refine ⟨_, Runs.Reaches.foldl _ (fun _ _ _ => trivial) _, ?_, hdelivered, by decide, hlost,
    fun h => hlost (h.delivered true _ (hdelivered true))⟩
  rintro (_ | _)
  · rfl
  · rfl

example : twoIds false ≠ twoIds true := by decide +kernel

end PennCloud
