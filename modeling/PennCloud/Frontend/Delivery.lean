import PennCloud.Frontend.Client
import PennCloud.Lib.Messages

/-!
# Calls that come through

`PennCloud.Call.exec` is what a call does once it has been delivered. Between the
client and the handler there is gRPC, which does not deliver every call
(`backend/kvstore.proto`, `backend/master.proto`):

* rows, columns and the keys of a `Lookup` are fields of type `string`, so they have to
  be UTF-8. The values are of type `bytes` and can be anything;
* no limit for the length of a message is set anywhere, and the one that holds then is
  four megabytes for a message that is received, be it a request or a reply.

A call that is not delivered fails like any other, with a text that begins with `ERR`,
and the handler does not see it (`PennCloud.Call.send`). Of a call whose reply is too
long the handler has seen the request; that can only be a `Get`, which writes nothing.
-/

namespace PennCloud

open Wire Calls

/-- The longest message that is received. -/
def maxMessage : ℕ := 4 * 1024 * 1024

/-- The values an update carries. -/
def Update.values : Update → List Bytes
  | .put _ _ value => [value]
  | .cput _ _ cur new => [cur, new]
  | .delete _ _ => []

namespace Call

/-- The fields of the request that are of type `string`. -/
def strings : Call → List Bytes
  | .lookup key => [key]
  | .get row column => [row, column]
  | .update u => [u.row, u.column]

/-- The fields of the request that are of type `bytes`. -/
def values : Call → List Bytes
  | .lookup _ => []
  | .get _ _ => []
  | .update u => u.values

/-- The length of the request. -/
def requestSize (c : Call) : ℕ := ((c.strings ++ c.values).map fieldSize).sum

/-- The length of a reply that carries a value; the others are a few bytes. -/
def replySize (kvs : Tablet) : Call → ℕ
  | .get row column =>
    match kvs.get row column with
    -- `success` is a byte, and has a tag
    | .ok value => 2 + fieldSize value
    | .error _ => 0
  | .lookup _ => 0
  | .update _ => 0

/-- **The call is delivered, and so is its reply.** -/
def delivered (kvs : Tablet) (c : Call) : Bool :=
  c.strings.all isUtf8 && decide (c.requestSize ≤ maxMessage) &&
    decide (c.replySize kvs ≤ maxMessage)

/-- What a call returns and does; `refused` is the status of a call that is not
delivered. -/
def send (refused : Call → Status) (master : Master) (c : Call) (kvs : Tablet) : Bytes × Tablet :=
  if c.delivered kvs then c.exec master kvs else ((refused c).err, kvs)

variable {refused : Call → Status} {master : Master} {c : Call} {kvs : Tablet}

theorem send_of_delivered (h : c.delivered kvs = true) :
    c.send refused master kvs = c.exec master kvs := if_pos h

theorem send_of_not_delivered (h : c.delivered kvs = false) :
    c.send refused master kvs = ((refused c).err, kvs) := by
  rw [send, h, if_neg Bool.false_ne_true]

theorem delivered_eq_true_iff : c.delivered kvs = true ↔ c.strings.all isUtf8 = true ∧
    c.requestSize ≤ maxMessage ∧ c.replySize kvs ≤ maxMessage := by
  rw [delivered, Bool.and_eq_true, Bool.and_eq_true, decide_eq_true_eq, decide_eq_true_eq,
    and_assoc]

/-- **What was stored can be asked for**: a value that came through in a `Put` does so in
the reply of a `Get`. -/
theorem delivered_get_of_put {kvs' : Tablet} {row column value : Bytes} (hrow : row ≠ [])
    (h : (update (.put row column value)).delivered kvs' = true)
    (hcell : kvs.cells (row, column) = some value) : (get row column).delivered kvs = true := by
  obtain ⟨hstrings, hsize, -⟩ := delivered_eq_true_iff.mp h
  have hput : fieldSize row + (fieldSize column + (fieldSize value + 0)) ≤ maxMessage := hsize
  have hthree := three_le_fieldSize hrow
  refine delivered_eq_true_iff.mpr ⟨hstrings, ?_, ?_⟩
  · show fieldSize row + (fieldSize column + 0) ≤ maxMessage
    omega
  · rcases Tablet.get_cells kvs row column with ⟨v, hv, hget⟩ | ⟨hnone, -⟩
    · obtain rfl : v = value := Option.some.inj (hv.symm.trans hcell)
      rw [replySize, hget]
      show 2 + fieldSize v ≤ maxMessage
      omega
    · exact absurd (hnone.symm.trans hcell) (by simp)

theorem delivered_lookup_of_put {kvs' : Tablet} {row column value : Bytes}
    (h : (update (.put row column value)).delivered kvs' = true) :
    (lookup row).delivered kvs = true := by
  obtain ⟨hstrings, hsize, -⟩ := delivered_eq_true_iff.mp h
  have hput : fieldSize row + (fieldSize column + (fieldSize value + 0)) ≤ maxMessage := hsize
  have hutf8 : isUtf8 row = true := List.all_eq_true.mp hstrings row List.mem_cons_self
  refine delivered_eq_true_iff.mpr ⟨?_, ?_, Nat.zero_le _⟩
  · show (isUtf8 row && true) = true
    rw [hutf8]
    rfl
  · show fieldSize row + 0 ≤ maxMessage
    omega

/-- **A run whose calls are all delivered** is the run on the store itself. -/
theorem run_send {α : Type} {p : Handler α}
    (h : p.Meets (exec master) (fun c kvs => c.delivered kvs = true) kvs) :
    p.run (send refused master) kvs = p.run (exec master) kvs :=
  h.run_eq (exec master) fun _ _ hc => send_of_delivered hc

/-! ### Calls about one row -/

/-- The row a call is about. -/
def about : Call → Bytes
  | .lookup key => key
  | .get row _ => row
  | .update u => u.row

/-- The call is delivered if it is about the row `b`. -/
def DeliveredTo (b : Bytes) (c : Call) (kvs : Tablet) : Prop :=
  c.about = b → c.delivered kvs = true

instance (b : Bytes) (c : Call) (kvs : Tablet) : Decidable (c.DeliveredTo b kvs) :=
  inferInstanceAs (Decidable (_ → _))

/-- A call about another row leaves the row alone, delivered or not. -/
theorem cells_send_of_ne {b : Bytes} (hc : c.about ≠ b) (column : Bytes) :
    (c.send refused master kvs).2.cells (b, column) = kvs.cells (b, column) := by
  rw [send]
  split_ifs with hdelivered
  · rcases c with key | ⟨row, column'⟩ | u
    · rfl
    · rfl
    · exact cells_exec_of_ne master kvs fun heq => hc (Prod.mk.inj heq).1.symm
  · rfl

section Row

variable {α : Type} {p : Handler α} {b row : Bytes}

/-- **A program about the row alone** whose calls are delivered. -/
theorem run_send_of_deliveredTo (hp : p.Uses fun c => c.about = b)
    (h : p.Meets (send refused master) (DeliveredTo b) kvs) :
    p.run (send refused master) kvs = p.run (exec master) kvs := by
  have hall := h.of_uses hp (Q := fun c kvs => c.delivered kvs = true) fun c kvs hc hto => hto hc
  exact (hall.run_eq (send refused master) fun c kvs hc => (send_of_delivered hc).symm).symm

/-- **A program about another row.** -/
theorem cells_run_send_of_ne (hp : p.Uses fun c => c.about = row) (hrow : row ≠ b)
    (column : Bytes) :
    (p.run (send refused master) kvs).2.cells (b, column) = kvs.cells (b, column) :=
  hp.run (P := fun t : Tablet => t.cells (b, column) = kvs.cells (b, column)) _
    (fun _ _ hc ht => (cells_send_of_ne (fun heq => hrow (hc.symm.trans heq)) column).trans ht) rfl

end Row

end Call

/-- A network that says of a call it does not deliver no more than that. -/
def refusedInternal : Call → Status := fun _ => ⟨.internal, []⟩

end PennCloud
