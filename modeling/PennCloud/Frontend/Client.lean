import PennCloud.Lib.Calls
import PennCloud.Lib.Text
import PennCloud.Backend.Coordinator
import PennCloud.Backend.Worker

/-!
# The key-value store as a front end sees it

The services of the front end reach the store through the two clients of
`backend/kvs_client.h`. A service first asks the master which worker serves a
row (`MasterNodeClient::Lookup`) and then makes `Get`, `Put`, `CPut` and `Delete`
calls on that worker. Every one of these calls returns a *string*: the value, or
a note that the call succeeded, or – when it failed – a text that begins with
`ERR`. That the three are told apart by looking at the text is what most of the
front end's behaviour on unusual data comes from.

`PennCloud.Call` is a call and `PennCloud.Call.exec` what it returns and does,
on the rows of the store; a service is a `Calls.Prog` over it. All rows are in
one `PennCloud.Tablet` here: a row is on one tablet only, so what a service sees
of the tablets is their union. `PennCloud.Call.exec_get_eq` and
`PennCloud.Call.exec_update_eq` say that a worker that is up answers exactly
this.

* `PennCloud.Tablet.text_of_some`, `PennCloud.Call.cells_exec` – what a call
  returns and does, in terms of the cells;
* `PennCloud.Tablet.isErr_of_none` – a `Get` of a cell that is not there returns a text
  taken for an error, whatever its wording.
-/

namespace PennCloud

open Wire Calls

/-! ### Calls -/

/-- A call of one of the two clients. -/
inductive Call where
  /-- `MasterNodeClient::Lookup`. -/
  | lookup (key : Bytes)
  /-- `KeyValueStoreClient::Get`. -/
  | get (row column : Bytes)
  /-- `KeyValueStoreClient::Put`, `CPut` or `Delete`. -/
  | update (u : Update)
  deriving DecidableEq

/-- How the master answers a `Lookup`. -/
abbrev Master := Bytes → Except Status Bytes

/-- The text a client makes of a reply that carries a value. -/
def clientText : Except Status Bytes → Bytes
  | .ok value => value
  | .error st => st.err

/-- The text a client returns for a write that succeeded. -/
def Update.successText : Update → Bytes
  | .put _ _ _ => ascii "PUT Successful"
  | .cput _ _ _ _ => ascii "CPUT Successful"
  | .delete _ _ => ascii "Delete Successful"

/-- What a call returns, and what it leaves of the rows, once it has been delivered: no length
and no bytes are refused here. -/
def Call.exec (master : Master) : Call → Tablet → Bytes × Tablet
  | .lookup key, kvs => (clientText (master key), kvs)
  | .get row column, kvs => (clientText (kvs.get row column), kvs)
  | .update u, kvs =>
    match u.onTablet kvs with
    | .ok kvs' => (u.successText, kvs')
    | .error st => (st.err, kvs)

/-- Why a handler stops without an answer. -/
inductive Abort where
  /-- `std::out_of_range` is thrown. -/
  | outOfRange
  /-- `std::invalid_argument` is thrown. -/
  | invalidArgument
  /-- `std::length_error` is thrown. -/
  | lengthError
  /-- `std::runtime_error` is thrown. -/
  | runtimeError
  /-- Memory is read where there is nothing; the language leaves open what happens. -/
  | undefined
  /-- It is still at work: the loop or the recursion has not come to its end. -/
  | running
  deriving DecidableEq

/-- A handler of a service. -/
abbrev Handler (α : Type) := Prog Call Bytes Abort α

/-- `Lookup` on the master. -/
def lookup (key : Bytes) : Handler Bytes := Prog.ask (.lookup key)

/-- `Get` on a worker. -/
def Get (row column : Bytes) : Handler Bytes := Prog.ask (.get row column)

/-- `Put` on a worker. -/
def Put (row column value : Bytes) : Handler Bytes := Prog.ask (.update (.put row column value))

/-- `CPut` on a worker. -/
def CPut (row column cur new : Bytes) : Handler Bytes :=
  Prog.ask (.update (.cput row column cur new))

/-- `Delete` on a worker. -/
def Delete (row column : Bytes) : Handler Bytes := Prog.ask (.update (.delete row column))

/-! ### Texts that begin with `ERR` -/

/-- The test the services make on what a client returned: `substr(0,3) == "ERR"`,
or `rfind("ERR", 0) == 0`. -/
def isErr (s : Bytes) : Bool := (ascii "ERR").isPrefixOf s

theorem isErr_err (st : Status) : isErr st.err = true := by
  have h : st.err = ascii "ERR" ++ (ascii " " ++ ascii (toString st.code.number) ++ ascii ": " ++
      st.message ++ ascii "\n") := by
    have h1 : ascii "ERR " = ascii "ERR" ++ ascii " " := by decide
    simp only [Status.err, h1, List.append_assoc]
  rw [isErr, h]
  exact List.isPrefixOf_iff_prefix.mpr (List.prefix_append _ _)

/-- A list with an entry more begins as before. -/
theorem isErr_append_comma {v : Bytes} (hv : v ≠ []) (h : isErr v = false) (t : Bytes) :
    isErr (v ++ 44 :: t) = false := by
  rcases v with _ | ⟨a, _ | ⟨b, _ | ⟨c, v⟩⟩⟩
  · exact absurd rfl hv
  · simp [isErr, ascii, List.isPrefixOf]
  · simp [isErr, ascii, List.isPrefixOf]
  · simpa [isErr, ascii, List.isPrefixOf] using h

/-- The master answers every `Lookup` with the address of a worker. -/
def Master.Up (master : Master) : Prop :=
  ∀ key, ∃ id, IsId numTablets id ∧ master key = .ok (address id)

theorem isErr_lookup {master : Master} (h : master.Up) (key : Bytes) :
    isErr (clientText (master key)) = false := by
  obtain ⟨id, hid, hm⟩ := h key
  have haddr : ∀ i ∈ workerIds, isErr (address i) = false := by decide
  rw [hm]
  exact haddr id (mem_workerIds.mpr hid)

/-- The master knows a worker for a row. -/
def Reached (master : Master) (row : Bytes) : Prop := isErr (clientText (master row)) = false

/-- A master that sends everybody to the first worker. -/
def Master.first : Master := fun _ => .ok (address 1)

theorem Master.up_first : Master.first.Up := fun _ => ⟨1, by decide, rfl⟩

/-- A master that takes all workers for alive is one that answers. -/
theorem up_of_isAlive (hash : Bytes → UInt64) {m : MasterNode}
    (h : ∀ id, IsId numTablets id → m.isAlive id = true) : Master.Up (m.lookup hash) := by
  intro key
  have hid := isId_tabletOf hash key
  refine ⟨tabletOf hash key, hid, ?_⟩
  have halive := h _ hid
  rw [tabletOf] at halive ⊢
  simp only [MasterNode.lookup, halive, if_true]

/-! ### What a call returns and does -/

section Exec

variable (master : Master) (kvs : Tablet)

/-- The text of a `Get`. -/
def Tablet.text (row column : Bytes) : Bytes := clientText (kvs.get row column)

section Bind

variable {α : Type}

@[simp] theorem run_lookup_bind (key : Bytes) (f : Bytes → Handler α) :
    (lookup key >>= f).run (Call.exec master) kvs =
      (f (clientText (master key))).run (Call.exec master) kvs := rfl

@[simp] theorem run_Get_bind (row column : Bytes) (f : Bytes → Handler α) :
    (Get row column >>= f).run (Call.exec master) kvs =
      (f (kvs.text row column)).run (Call.exec master) kvs := rfl

@[simp] theorem run_Put_bind (row column value : Bytes) (f : Bytes → Handler α) :
    (Put row column value >>= f).run (Call.exec master) kvs =
      (f (ascii "PUT Successful")).run (Call.exec master) (kvs.put row column value) := rfl

@[simp] theorem run_Delete_bind (row column : Bytes) (f : Bytes → Handler α) :
    (Delete row column >>= f).run (Call.exec master) kvs =
      (f (ascii "Delete Successful")).run (Call.exec master) (kvs.delete row column) := rfl

theorem run_CPut_bind (row column cur new : Bytes) (f : Bytes → Handler α) :
    (CPut row column cur new >>= f).run (Call.exec master) kvs =
      (f (Call.exec master (.update (.cput row column cur new)) kvs).1).run (Call.exec master)
        (Call.exec master (.update (.cput row column cur new)) kvs).2 := rfl

theorem ends_lookup_bind (key : Bytes) (f : Bytes → Handler α) :
    (lookup key >>= f).Ends (Call.exec master) kvs ↔
      (f (clientText (master key))).Ends (Call.exec master) kvs := Iff.rfl

theorem ends_Get_bind (row column : Bytes) (f : Bytes → Handler α) :
    (Get row column >>= f).Ends (Call.exec master) kvs ↔
      (f (kvs.text row column)).Ends (Call.exec master) kvs := Iff.rfl

theorem ends_Put_bind (row column value : Bytes) (f : Bytes → Handler α) :
    (Put row column value >>= f).Ends (Call.exec master) kvs ↔
      (f (ascii "PUT Successful")).Ends (Call.exec master) (kvs.put row column value) := Iff.rfl

theorem ends_Delete_bind (row column : Bytes) (f : Bytes → Handler α) :
    (Delete row column >>= f).Ends (Call.exec master) kvs ↔
      (f (ascii "Delete Successful")).Ends (Call.exec master) (kvs.delete row column) := Iff.rfl

end Bind

variable {kvs}

theorem Tablet.text_of_some {row column value : Bytes}
    (h : kvs.cells (row, column) = some value) : kvs.text row column = value := by
  rcases Tablet.get_cells kvs row column with ⟨v, hv, hget⟩ | ⟨hnone, -⟩
  · rw [Tablet.text, hget]
    exact Option.some.inj (hv.symm.trans h)
  · exact absurd (hnone.symm.trans h) (by simp)

/-- **A cell that is not there reads as an error.** -/
theorem Tablet.isErr_of_none {row column : Bytes} (h : kvs.cells (row, column) = none) :
    isErr (kvs.text row column) = true := by
  rcases Tablet.get_cells kvs row column with ⟨v, hv, -⟩ | ⟨-, st, hget, -⟩
  · exact absurd (h.symm.trans hv) (by simp)
  · rw [Tablet.text, hget]
    exact isErr_err st

variable (kvs)

/-- An accepted write changes its cell and no other; a refused one nothing. -/
theorem Call.cells_exec (c : Call) :
    (Call.exec master c kvs).2.cells = kvs.cells ∨
      ∃ u, c = .update u ∧
        (Call.exec master c kvs).2.cells = Function.update kvs.cells u.cell u.result := by
  rcases c with key | ⟨row, column⟩ | u
  · exact Or.inl rfl
  · exact Or.inl rfl
  · rcases h : u.onTablet kvs with st | kvs'
    · exact Or.inl (by simp only [Call.exec, h])
    · exact Or.inr ⟨u, rfl, by simp only [Call.exec, h, Update.cells_onTablet h]⟩

/-- A call leaves the cells it does not write alone. -/
theorem Call.cells_exec_of_ne {u : Update} {k : Bytes × Bytes} (hk : k ≠ u.cell) :
    (Call.exec master (.update u) kvs).2.cells k = kvs.cells k := by
  rcases Call.cells_exec master kvs (.update u) with h | ⟨u', hu, h⟩
  · rw [h]
  · obtain rfl := Call.update.inj hu
    rw [h, Function.update_of_ne hk]

@[simp] theorem Call.cells_exec_put (row column value : Bytes) :
    (Call.exec master (.update (.put row column value)) kvs).2.cells =
      Function.update kvs.cells (row, column) (some value) :=
  Tablet.cells_put kvs row column value

/-- A `CPut` that finds its value writes. -/
theorem Call.cells_exec_cput_of_eq {row column cur new : Bytes}
    (h : kvs.cells (row, column) = some cur) :
    (Call.exec master (.update (.cput row column cur new)) kvs).2.cells =
      Function.update kvs.cells (row, column) (some new) := by
  rcases hc : kvs.cput row column cur new with st | kvs'
  · exact absurd h (Tablet.cput_error hc).1
  · have ht : Update.onTablet (.cput row column cur new) kvs = .ok kvs' := hc
    simp only [Call.exec, ht, Update.cells_onTablet ht]
    rfl

/-- A `CPut` that does not find its value leaves everything as it is. -/
theorem Call.exec_cput_of_ne {row column cur new : Bytes}
    (h : kvs.cells (row, column) ≠ some cur) :
    (Call.exec master (.update (.cput row column cur new)) kvs).2 = kvs := by
  rcases hc : kvs.cput row column cur new with st | kvs'
  · have ht : Update.onTablet (.cput row column cur new) kvs = .error st := hc
    simp only [Call.exec, ht]
  · exact absurd (Tablet.cput_ok hc).1 h

end Exec

/-! ### The worker behind the client -/

section Behind

variable {hash : Bytes → UInt64} {workerId : ℕ} {w : Worker} {i : Fin 3}

/-- **A `Get` is answered by the worker that holds the row.** -/
theorem Call.exec_get_eq (master : Master) (hup : w.isUp = true) {row column : Bytes}
    (hi : getTabletNumberOnThisWorker numTablets workerId (tabletOf hash row) = some i) :
    (Call.exec master (.get row column) (w.slots i).tablet).1 =
      clientText (w.get hash workerId row column) := by
  obtain ⟨hr, ha⟩ : w.running = true ∧ w.adminWorkerUp = true := by simpa [Worker.isUp] using hup
  simp only [Worker.get, hr, ha, hi, Bool.not_true, Bool.false_eq_true, if_false]
  rfl

/-- **A write is carried out by the worker that holds the row**, which leaves the
rows of its tablet as the call says. -/
theorem Call.exec_update_eq (master : Master) (hup : w.isUp = true) {u : Update}
    (hi : getTabletNumberOnThisWorker numTablets workerId (tabletOf hash u.row) = some i)
    {env : Env} : (Call.exec master (.update u) (w.slots i).tablet).2 =
      ((Worker.handle hash workerId env u w).1.slots i).tablet := by
  rw [Worker.handle_of_isUp hup hi, Worker.slots_setSlot]
  rcases h : u.onTablet (w.slots i).tablet with st | kvs
  · simp only [Call.exec, h, Slot.update_error h]
  · simp only [Call.exec, h, Slot.tablet_update h]

end Behind

end PennCloud
