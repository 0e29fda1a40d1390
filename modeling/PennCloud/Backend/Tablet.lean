import PennCloud.Lib.Store
import PennCloud.Lib.Wire
import Mathlib.Data.Finmap

/-!
# Tablets

A tablet is the unit of placement of the key-value store: a map from row keys to
columns, each of them a map from column keys to values (`backend/worker.cc`
keeps three of them, as nested `unordered_map`s). This file has the tablet
itself and the three updates a worker makes to it in memory – `PUT`, `CPUT` and
`DELETE` – with the statuses they answer with.

The order in which an `unordered_map` lists its entries is unspecified, so a map
is modelled by Mathlib's `Finmap`, which has none; where the order shows, in the
serialized form of a tablet, it is a parameter.

Above the nested maps stands the abstract view `PennCloud.Tablet.cells`: a store
whose keys are the pairs of a row and a column. It forgets exactly one thing, a
row that has no columns. `PennCloud.Update.exec_cells` says that an update of a
tablet is the corresponding command of `KeyValue.Cmd` on its cells, and
`PennCloud.Tablet.ext_cells` that a tablet without empty rows is determined by
them; the updates never make an empty row (`PennCloud.Update.noEmptyRow_onTablet`).
-/

namespace PennCloud

open Wire KeyValue

/-! ### Statuses -/

/-- The status codes of gRPC. -/
inductive StatusCode where
  | ok
  | cancelled
  | unknown
  | invalidArgument
  | deadlineExceeded
  | notFound
  | alreadyExists
  | permissionDenied
  | resourceExhausted
  | failedPrecondition
  | aborted
  | outOfRange
  | unimplemented
  | internal
  | unavailable
  | dataLoss
  | unauthenticated
  deriving DecidableEq

/-- The number gRPC gives a status code. -/
def StatusCode.number : StatusCode → ℕ
  | .ok => 0
  | .cancelled => 1
  | .unknown => 2
  | .invalidArgument => 3
  | .deadlineExceeded => 4
  | .notFound => 5
  | .alreadyExists => 6
  | .permissionDenied => 7
  | .resourceExhausted => 8
  | .failedPrecondition => 9
  | .aborted => 10
  | .outOfRange => 11
  | .unimplemented => 12
  | .internal => 13
  | .unavailable => 14
  | .dataLoss => 15
  | .unauthenticated => 16

/-- The status of a call. -/
structure Status where
  /-- The code. -/
  code : StatusCode
  /-- The message that goes with it. -/
  message : Bytes
  deriving DecidableEq

/-- `Status::OK`. -/
def Status.OK : Status := ⟨.ok, []⟩

/-- `status.ok()`. -/
def Status.isOk (s : Status) : Bool := s.code = .ok

@[simp] theorem Status.isOk_OK : Status.OK.isOk = true := rfl

/-- The text the clients of `kvs_client.h` return for a call that failed. -/
def Status.err (s : Status) : Bytes :=
  ascii "ERR " ++ ascii (toString s.code.number) ++ ascii ": " ++ s.message ++ ascii "\n"

/-! ### The maps -/

/-- The columns of a row, an `unordered_map<string, string>`. -/
abbrev Columns := Finmap fun _ : Bytes => Bytes

/-- A tablet, an `unordered_map<string, unordered_map<string, string>>`. -/
abbrev Tablet := Finmap fun _ : Bytes => Columns

namespace Tablet

/-- `kvs[row][column] = value`, the row being created when it is not there. -/
def put (kvs : Tablet) (row column value : Bytes) : Tablet :=
  kvs.insert row (((kvs.lookup row).getD ∅).insert column value)

/-- Erase a column, and the row with it when that was its last one. -/
def delete (kvs : Tablet) (row column : Bytes) : Tablet :=
  match kvs.lookup row with
  | none => kvs
  | some columns =>
    if column ∈ columns then
      if columns.erase column = ∅ then kvs.erase row else kvs.insert row (columns.erase column)
    else kvs

/-- Replace a value by a new one, if it is the current one. -/
def cput (kvs : Tablet) (row column currentValue newValue : Bytes) : Except Status Tablet :=
  match kvs.lookup row with
  | none => .error ⟨.notFound, ascii "Row key not found"⟩
  | some columns =>
    match columns.lookup column with
    | none => .error ⟨.notFound, ascii "Column key not found"⟩
    | some value =>
      if value = currentValue then .ok (kvs.insert row (columns.insert column newValue))
      else .error ⟨.failedPrecondition, ascii "Current value does not match specified value"⟩

/-- Read a value. -/
def get (kvs : Tablet) (row column : Bytes) : Except Status Bytes :=
  match kvs.lookup row with
  | none => .error ⟨.notFound, ascii "Row key not found"⟩
  | some columns =>
    match columns.lookup column with
    | none => .error ⟨.notFound, ascii "Column key not found"⟩
    | some value => .ok value

/-! ### The cells of a tablet -/

/-- The tablet as a store of cells, a cell being named by its row and column. -/
def cells (kvs : Tablet) : Store (Bytes × Bytes) Bytes :=
  fun k => (kvs.lookup k.1).bind fun columns => columns.lookup k.2

/-- No row of the tablet is without columns. -/
def NoEmptyRow (kvs : Tablet) : Prop :=
  ∀ row columns, kvs.lookup row = some columns → columns ≠ ∅

@[simp] theorem cells_empty : cells ∅ = fun _ => none := rfl

theorem noEmptyRow_empty : NoEmptyRow ∅ := by
  intro row columns h
  simp at h

theorem cells_put (kvs : Tablet) (row column value : Bytes) :
    (kvs.put row column value).cells = Function.update kvs.cells (row, column) (some value) := by
  funext ⟨r, c⟩
  rcases eq_or_ne r row with rfl | hr
  · rcases eq_or_ne c column with rfl | hc
    · simp [cells, put]
    · have hne : (r, c) ≠ (r, column) := fun h => hc (congrArg Prod.snd h)
      rw [Function.update_of_ne hne]
      rcases hl : kvs.lookup r with _ | columns
      · simp [cells, put, hl, Finmap.lookup_insert_of_ne _ hc]
      · simp [cells, put, hl, Finmap.lookup_insert_of_ne _ hc]
  · have hne : (r, c) ≠ (row, column) := fun h => hr (congrArg Prod.fst h)
    rw [Function.update_of_ne hne]
    simp [cells, put, Finmap.lookup_insert_of_ne _ hr]

theorem insert_ne_empty (columns : Columns) (column value : Bytes) :
    columns.insert column value ≠ ∅ := by
  intro h
  have hmem : column ∈ columns.insert column value := Finmap.mem_insert.mpr (Or.inl rfl)
  rw [h] at hmem
  exact Finmap.notMem_empty hmem

theorem noEmptyRow_insert {kvs : Tablet} (h : kvs.NoEmptyRow) (row : Bytes) {columns : Columns}
    (hne : columns ≠ ∅) : NoEmptyRow (kvs.insert row columns) := by
  intro r cs hl
  rcases eq_or_ne r row with rfl | hr
  · rw [Finmap.lookup_insert] at hl
    exact Option.some.inj hl ▸ hne
  · rw [Finmap.lookup_insert_of_ne _ hr] at hl
    exact h r cs hl

theorem noEmptyRow_put {kvs : Tablet} (h : kvs.NoEmptyRow) (row column value : Bytes) :
    (kvs.put row column value).NoEmptyRow :=
  noEmptyRow_insert h row (insert_ne_empty _ _ _)

theorem cells_delete (kvs : Tablet) (row column : Bytes) :
    (kvs.delete row column).cells = Function.update kvs.cells (row, column) none := by
  -- outside the deleted cell both sides read the old map; at it both read nothing
  funext ⟨r, c⟩
  rcases hl : kvs.lookup row with _ | columns
  · rcases eq_or_ne (r, c) (row, column) with h | h
    · obtain ⟨rfl, rfl⟩ := Prod.mk.inj h
      simp [cells, delete, hl]
    · simp [cells, delete, hl, Function.update_of_ne h]
  by_cases hm : column ∈ columns
  · rcases eq_or_ne r row with rfl | hr
    · rcases eq_or_ne c column with rfl | hc
      · by_cases he : columns.erase c = ∅
        · simp [cells, delete, hl, hm, he]
        · simp [cells, delete, hl, hm, he]
      · have hne : (r, c) ≠ (r, column) := fun h => hc (congrArg Prod.snd h)
        rw [Function.update_of_ne hne]
        by_cases he : columns.erase column = ∅
        · have hc' : columns.lookup c = none := by
            rw [← Finmap.lookup_erase_ne hc, he, Finmap.lookup_empty]
          simp [cells, delete, hl, hm, he, hc']
        · simp [cells, delete, hl, hm, he, Finmap.lookup_erase_ne hc]
    · have hne : (r, c) ≠ (row, column) := fun h => hr (congrArg Prod.fst h)
      rw [Function.update_of_ne hne]
      by_cases he : columns.erase column = ∅
      · simp [cells, delete, hl, hm, he, Finmap.lookup_erase_ne hr]
      · simp [cells, delete, hl, hm, he, Finmap.lookup_insert_of_ne _ hr]
  · have hnone : columns.lookup column = none := Finmap.lookup_eq_none.mpr hm
    rcases eq_or_ne (r, c) (row, column) with h | h
    · obtain ⟨rfl, rfl⟩ := Prod.mk.inj h
      simp [cells, delete, hl, hm, hnone]
    · simp [cells, delete, hl, hm, Function.update_of_ne h]

theorem noEmptyRow_delete {kvs : Tablet} (h : kvs.NoEmptyRow) (row column : Bytes) :
    (kvs.delete row column).NoEmptyRow := by
  rcases hl : kvs.lookup row with _ | columns
  · simpa [delete, hl] using h
  by_cases hm : column ∈ columns
  · by_cases he : columns.erase column = ∅
    · rw [delete, hl]
      simp only [if_pos hm, if_pos he]
      intro r cs hr
      rcases eq_or_ne r row with rfl | hne
      · simp at hr
      · rw [Finmap.lookup_erase_ne hne] at hr
        exact h r cs hr
    · rw [delete, hl]
      simp only [if_pos hm, if_neg he]
      exact noEmptyRow_insert h row he
  · rw [delete, hl]
    simpa only [if_neg hm] using h

/-- A `CPUT` that is accepted writes the new value over the current one. -/
theorem cput_ok {kvs kvs' : Tablet} {row column cur new : Bytes}
    (h : kvs.cput row column cur new = .ok kvs') :
    kvs.cells (row, column) = some cur ∧ kvs' = kvs.put row column new := by
  rcases hl : kvs.lookup row with _ | columns
  · simp [cput, hl] at h
  rcases hv : columns.lookup column with _ | value
  · simp [cput, hl, hv] at h
  by_cases he : value = cur
  · subst he
    simp only [cput, hl, hv, if_true, Except.ok.injEq] at h
    exact ⟨by simp [cells, hl, hv], by simp [put, hl, ← h]⟩
  · simp [cput, hl, hv, he] at h

/-- A `CPUT` that is refused found another value, or none, and says so. -/
theorem cput_error {kvs : Tablet} {row column cur new : Bytes} {st : Status}
    (h : kvs.cput row column cur new = .error st) :
    kvs.cells (row, column) ≠ some cur ∧ st.isOk = false := by
  rcases hl : kvs.lookup row with _ | columns
  · simp only [cput, hl, Except.error.injEq] at h
    exact ⟨by simp [cells, hl], by rw [← h]; rfl⟩
  rcases hv : columns.lookup column with _ | value
  · simp only [cput, hl, hv, Except.error.injEq] at h
    exact ⟨by simp [cells, hl, hv], by rw [← h]; rfl⟩
  by_cases he : value = cur
  · simp [cput, hl, hv, he] at h
  · simp only [cput, hl, hv, if_neg he, Except.error.injEq] at h
    exact ⟨by simp [cells, hl, hv, he], by rw [← h]; rfl⟩

/-- **Reading a cell**: its value, or a status saying that there is none. -/
theorem get_cells (kvs : Tablet) (row column : Bytes) :
    (∃ value, kvs.cells (row, column) = some value ∧ kvs.get row column = .ok value) ∨
      (kvs.cells (row, column) = none ∧
        ∃ st : Status, kvs.get row column = .error st ∧ st.code = .notFound) := by
  rcases hl : kvs.lookup row with _ | columns
  · exact Or.inr ⟨by simp [cells, hl], ⟨.notFound, ascii "Row key not found"⟩,
      by simp only [get, hl], rfl⟩
  rcases hv : columns.lookup column with _ | value
  · exact Or.inr ⟨by simp [cells, hl, hv], ⟨.notFound, ascii "Column key not found"⟩,
      by simp only [get, hl, hv], rfl⟩
  · exact Or.inl ⟨value, by simp [cells, hl, hv], by simp only [get, hl, hv]⟩

/-- The answer of a `Get` for a cell that holds `x`: the value, or `NOT_FOUND`. -/
def IsAnswer (x : Option Bytes) : Except Status Bytes → Prop
  | .ok value => x = some value
  | .error st => x = none ∧ st.code = .notFound

theorem isAnswer_get (kvs : Tablet) (row column : Bytes) :
    IsAnswer (kvs.cells (row, column)) (kvs.get row column) := by
  rcases get_cells kvs row column with ⟨value, hcell, hget⟩ | ⟨hcell, st, hget, hst⟩
  · rw [hget]
    exact hcell
  · rw [hget]
    exact ⟨hcell, hst⟩

/-- **A tablet without empty rows is determined by its cells.** -/
theorem ext_cells {kvs kvs' : Tablet} (h : kvs.NoEmptyRow) (h' : kvs'.NoEmptyRow)
    (hcells : kvs.cells = kvs'.cells) : kvs = kvs' := by
  -- a row that is there has a column, which the other tablet then has in the same row
  have key : ∀ {a b : Tablet}, a.NoEmptyRow → a.cells = b.cells → ∀ row columns,
      a.lookup row = some columns → ∃ columns', b.lookup row = some columns' := by
    intro a b ha hab row columns hl
    by_contra hno
    refine ha row columns hl (Finmap.ext_lookup fun c => ?_)
    have hb : b.lookup row = none := Option.eq_none_iff_forall_ne_some.mpr
      fun columns' hc => hno ⟨columns', hc⟩
    have hcell := congrFun hab (row, c)
    simpa [cells, hl, hb] using hcell
  refine Finmap.ext_lookup fun row => ?_
  rcases hl : kvs.lookup row with _ | columns
  · rcases hl' : kvs'.lookup row with _ | columns'
    · rfl
    · obtain ⟨columns, hc⟩ := key h' hcells.symm row columns' hl'
      rw [hl] at hc
      exact absurd hc (by simp)
  · obtain ⟨columns', hl'⟩ := key h hcells row columns hl
    rw [hl']
    refine congrArg some (Finmap.ext_lookup fun c => ?_)
    simpa [cells, hl, hl'] using congrFun hcells (row, c)

end Tablet

/-! ### Updates -/

/-- A request that writes: a `PutRequest`, a `CPutRequest` or a
`DeleteRequest`. -/
inductive Update where
  /-- `PUT row column value`. -/
  | put (row column value : Bytes)
  /-- `CPUT row column current_value new_value`. -/
  | cput (row column currentValue newValue : Bytes)
  /-- `DELETE row column`. -/
  | delete (row column : Bytes)
  deriving DecidableEq

namespace Update

/-- The row an update is about. -/
def row : Update → Bytes
  | .put row _ _ => row
  | .cput row _ _ _ => row
  | .delete row _ => row

/-- The column an update is about. -/
def column : Update → Bytes
  | .put _ column _ => column
  | .cput _ column _ _ => column
  | .delete _ column => column

/-- The cell an update is about. -/
def cell (u : Update) : Bytes × Bytes := (u.row, u.column)

/-- The change an update makes to a tablet in memory, or the status it is
refused with. -/
def onTablet : Update → Tablet → Except Status Tablet
  | .put row column value, kvs => .ok (kvs.put row column value)
  | .cput row column cur new, kvs => kvs.cput row column cur new
  | .delete row column, kvs => .ok (kvs.delete row column)

/-- An update as a command on the cells. -/
def cmd : Update → Cmd (Bytes × Bytes) Bytes
  | .put row column value => .put (row, column) value
  | .cput row column cur new => .cput (row, column) cur new
  | .delete row column => .delete (row, column)

@[simp] theorem key_cmd (u : Update) : u.cmd.key = u.cell := by
  cases u <;> rfl

/-- **An accepted update is its command on the cells.** -/
theorem exec_cells {u : Update} {kvs kvs' : Tablet} (h : u.onTablet kvs = .ok kvs') :
    u.cmd.exec kvs.cells = some kvs'.cells := by
  cases u with
  | put row column value =>
    obtain rfl : kvs.put row column value = kvs' := Except.ok.inj h
    rw [Tablet.cells_put]
    rfl
  | cput row column cur new =>
    obtain ⟨hcur, rfl⟩ := Tablet.cput_ok h
    rw [Tablet.cells_put]
    simp [cmd, Cmd.exec, Cmd.key, Cmd.act, hcur]
  | delete row column =>
    obtain rfl : kvs.delete row column = kvs' := Except.ok.inj h
    rw [Tablet.cells_delete]
    rfl

/-- **A refused update is a refused command**, and its status is not `OK`. -/
theorem exec_cells_error {u : Update} {kvs : Tablet} {st : Status}
    (h : u.onTablet kvs = .error st) : u.cmd.exec kvs.cells = none ∧ st.isOk = false := by
  cases u with
  | put row column value => exact absurd h (by simp [onTablet])
  | cput row column cur new =>
    obtain ⟨hcur, hst⟩ := Tablet.cput_error h
    exact ⟨by simp [cmd, Cmd.exec, Cmd.key, Cmd.act, hcur], hst⟩
  | delete row column => exact absurd h (by simp [onTablet])

/-- What an accepted update leaves in its cell. -/
def result : Update → Option Bytes
  | .put _ _ value => some value
  | .cput _ _ _ new => some new
  | .delete _ _ => none

/-- An accepted update writes its cell and no other. -/
theorem cells_onTablet {u : Update} {kvs kvs' : Tablet} (h : u.onTablet kvs = .ok kvs') :
    kvs'.cells = Function.update kvs.cells u.cell u.result := by
  cases u with
  | put row column value =>
    obtain rfl : kvs.put row column value = kvs' := Except.ok.inj h
    exact Tablet.cells_put kvs row column value
  | cput row column cur new =>
    obtain ⟨-, rfl⟩ := Tablet.cput_ok h
    exact Tablet.cells_put kvs row column new
  | delete row column =>
    obtain rfl : kvs.delete row column = kvs' := Except.ok.inj h
    exact Tablet.cells_delete kvs row column

theorem noEmptyRow_onTablet {u : Update} {kvs kvs' : Tablet} (h : kvs.NoEmptyRow)
    (hu : u.onTablet kvs = .ok kvs') : kvs'.NoEmptyRow := by
  cases u with
  | put row column value =>
    obtain rfl : kvs.put row column value = kvs' := Except.ok.inj hu
    exact Tablet.noEmptyRow_put h _ _ _
  | cput row column cur new =>
    obtain ⟨-, rfl⟩ := Tablet.cput_ok hu
    exact Tablet.noEmptyRow_put h _ _ _
  | delete row column =>
    obtain rfl : kvs.delete row column = kvs' := Except.ok.inj hu
    exact Tablet.noEmptyRow_delete h _ _

end Update

end PennCloud
