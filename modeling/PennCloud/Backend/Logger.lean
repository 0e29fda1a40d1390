import PennCloud.Backend.Serializer

/-!
# The command log

`utils/logger.cc`: a worker appends every update it accepts to the command log
of the tablet, as a record of five length-prefixed strings, and reads the whole
log back when it recovers the tablet. A log file is modelled by its bytes; the
writer always stands at the end of it, since it is opened for appending or has
just been truncated.

`PennCloud.Logger.getLogs_logs` is what the reader makes of a file that consists
of complete records: exactly these records. A file is brought into that form by
`logCommand` and `clearLog` alone.
-/

namespace PennCloud

open Wire KeyValue

/-- A record of the command log. -/
structure CommandLog where
  /-- `PUT`, `CPUT` or `DELETE`. -/
  command : Bytes
  /-- The row. -/
  row : Bytes
  /-- The column. -/
  column : Bytes
  /-- The value of a `PUT`, the current value of a `CPUT`. -/
  value1 : Bytes
  /-- The new value of a `CPUT`. -/
  value2 : Bytes
  deriving DecidableEq

namespace Logger

/-- `Logger::writeString`, on the file. -/
def writeString (str : Bytes) : Bytes := PennCloud.writeString str

/-- `Logger::readString`, from the input left. -/
def readString (inp : Bytes) : Option (Bytes × Bytes) := PennCloud.readString inp

/-- The bytes of a record. -/
def record (cl : CommandLog) : Bytes :=
  writeString cl.command ++ writeString cl.row ++ writeString cl.column ++
    writeString cl.value1 ++ writeString cl.value2

/-- Append a record to the log. -/
def logCommand (file : Bytes) (cl : CommandLog) : Bytes := file ++ record cl

/-- Read one record; fails as soon as one of its strings cannot be read. -/
def readNextCommand (inp : Bytes) : Option (CommandLog × Bytes) := do
  let (command, inp) ← readString inp
  let (row, inp) ← readString inp
  let (column, inp) ← readString inp
  let (value1, inp) ← readString inp
  let (value2, inp) ← readString inp
  return (⟨command, row, column, value1, value2⟩, inp)

theorem readNextCommand_length {inp rest : Bytes} {cl : CommandLog}
    (h : readNextCommand inp = some (cl, rest)) : rest.length < inp.length := by
  simp only [readNextCommand, readString, Option.bind_eq_bind, Option.bind_eq_some_iff,
    Option.pure_def, Option.some.injEq, Prod.exists] at h
  obtain ⟨s₁, r₁, h₁, s₂, r₂, h₂, s₃, r₃, h₃, s₄, r₄, h₄, s₅, r₅, h₅, he⟩ := h
  obtain rfl : r₅ = rest := congrArg Prod.snd he
  have e₁ := readString_length h₁
  have e₂ := readString_length h₂
  have e₃ := readString_length h₃
  have e₄ := readString_length h₄
  have e₅ := readString_length h₅
  omega

/-- The reading loop: records until one cannot be read. -/
def readLogs (inp : Bytes) : List CommandLog :=
  match _h : readNextCommand inp with
  -- an incomplete record at the end is dropped without a word
  | none => []
  | some (cl, rest) => cl :: readLogs rest
termination_by inp.length
decreasing_by exact readNextCommand_length _h

/-- The commands of the log file, read from its beginning. -/
def getLogs (file : Bytes) : List CommandLog := readLogs file

/-- The file once the log has been cleared. -/
def clearLog (_file : Bytes) : Bytes := []

/-! ### Files of complete records -/

/-- The strings of a record are shorter than `2 ^ 32` bytes. -/
structure Short (cl : CommandLog) : Prop where
  /-- The command. -/
  command : cl.command.length < 2 ^ 32
  /-- The row. -/
  row : cl.row.length < 2 ^ 32
  /-- The column. -/
  column : cl.column.length < 2 ^ 32
  /-- The first value. -/
  value1 : cl.value1.length < 2 ^ 32
  /-- The second value. -/
  value2 : cl.value2.length < 2 ^ 32

/-- The bytes of a file of complete records. -/
def logs (l : List CommandLog) : Bytes := l.flatMap record

@[simp] theorem logs_nil : logs [] = [] := rfl

theorem logs_append (l l' : List CommandLog) : logs (l ++ l') = logs l ++ logs l' :=
  List.flatMap_append

/-- Logging a command adds it to the records. -/
theorem logCommand_logs (l : List CommandLog) (cl : CommandLog) :
    logCommand (logs l) cl = logs (l ++ [cl]) := by
  simp [logCommand, logs]

theorem readNextCommand_record {cl : CommandLog} (h : Short cl) (rest : Bytes) :
    readNextCommand (record cl ++ rest) = some (cl, rest) := by
  simp [readNextCommand, record, readString, writeString, List.append_assoc,
    readString_writeString h.command, readString_writeString h.row,
    readString_writeString h.column, readString_writeString h.value1,
    readString_writeString h.value2]

theorem readNextCommand_nil : readNextCommand [] = none := by
  rcases hr : readNextCommand [] with _ | ⟨cl, rest⟩
  · rfl
  · exact absurd (readNextCommand_length hr) (by simp)

/-- **The log returns exactly the records of the file.** -/
theorem getLogs_logs {l : List CommandLog} (h : ∀ cl ∈ l, Short cl) : getLogs (logs l) = l := by
  induction l with
  | nil =>
    rw [logs_nil, getLogs, readLogs, readNextCommand_nil]
  | cons cl l ih =>
    have hread : readNextCommand (logs (cl :: l)) = some (cl, logs l) :=
      readNextCommand_record (h cl List.mem_cons_self) (logs l)
    have hrest : readLogs (logs l) = l := ih fun cl' hcl' => h cl' (List.mem_cons_of_mem cl hcl')
    rw [getLogs, readLogs, hread]
    simp only [hrest]

end Logger

/-! ### The records of updates -/

namespace Update

/-- The record a worker logs for an update. -/
def record : Update → CommandLog
  | .put row column value => ⟨ascii "PUT", row, column, value, ascii "NULL"⟩
  | .cput row column cur new => ⟨ascii "CPUT", row, column, cur, new⟩
  | .delete row column => ⟨ascii "DELETE", row, column, ascii "NULL", ascii "NULL"⟩

/-- The strings of an update are shorter than `2 ^ 32` bytes. -/
def Short (u : Update) : Prop := Logger.Short u.record

end Update

/-! ### Replaying the log -/

/-- Replay one record; `none` when it cannot be replayed. -/
def replayCommand (cl : CommandLog) (tablet : Tablet) : Option Tablet :=
  if cl.command = ascii "PUT" then some (tablet.put cl.row cl.column cl.value1)
  else if cl.command = ascii "CPUT" then
    (tablet.cput cl.row cl.column cl.value1 cl.value2).toOption
  else if cl.command = ascii "DELETE" then some (tablet.delete cl.row cl.column)
  else none

/-- `replayLogs`: the tablet once all the records are replayed, `none` when it
returned `false` – its caller then exits, so the half-replayed tablet is seen by
nobody. -/
def replayLogs : List CommandLog → Tablet → Option Tablet
  | [], tablet => some tablet
  | cl :: logs, tablet => (replayCommand cl tablet).bind (replayLogs logs)

theorem replayLogs_append (l l' : List CommandLog) (tablet : Tablet) :
    replayLogs (l ++ l') tablet = (replayLogs l tablet).bind (replayLogs l') := by
  induction l generalizing tablet with
  | nil => rfl
  | cons cl l ih =>
    simp only [List.cons_append, replayLogs, Option.bind_assoc]
    exact congrArg _ (funext ih)

/-- **Replay does what the handler did**: the record of an update is replayed by
making the update. -/
theorem replayCommand_record (u : Update) (tablet : Tablet) :
    replayCommand u.record tablet = (u.onTablet tablet).toOption := by
  have hcput : ascii "CPUT" ≠ ascii "PUT" := by decide
  have hdelete : ascii "DELETE" ≠ ascii "PUT" := by decide
  have hdelete' : ascii "DELETE" ≠ ascii "CPUT" := by decide
  cases u with
  | put row column value =>
    simp [replayCommand, Update.record, Update.onTablet, Except.toOption]
  | cput row column cur new =>
    simp [replayCommand, Update.record, Update.onTablet, hcput]
  | delete row column =>
    simp [replayCommand, Update.record, Update.onTablet, hdelete, hdelete', Except.toOption]

section Invariant

variable (P : Tablet → Prop)

/-- **Replay only puts and deletes cells** of the records; so what these keep, a
replay keeps. -/
theorem replayCommand_invariant {cl : CommandLog}
    (hput : ∀ {tablet : Tablet}, P tablet → ∀ {value : Bytes},
      (value = cl.value1 ∨ value = cl.value2) → P (tablet.put cl.row cl.column value))
    (hdelete : ∀ {tablet : Tablet}, P tablet → P (tablet.delete cl.row cl.column))
    {tablet tablet' : Tablet} (h : P tablet) (hr : replayCommand cl tablet = some tablet') :
    P tablet' := by
  rw [replayCommand] at hr
  split_ifs at hr
  · obtain rfl := Option.some.inj hr
    exact hput h (Or.inl rfl)
  · rcases hc : tablet.cput cl.row cl.column cl.value1 cl.value2 with st | t
    · simp [hc, Except.toOption] at hr
    · obtain rfl : t = tablet' := by simpa [hc, Except.toOption] using hr
      obtain ⟨-, rfl⟩ := Tablet.cput_ok hc
      exact hput h (Or.inr rfl)
  · obtain rfl := Option.some.inj hr
    exact hdelete h

theorem replayLogs_invariant {l : List CommandLog}
    (hcl : ∀ cl ∈ l, ∀ {tablet tablet' : Tablet}, P tablet →
      replayCommand cl tablet = some tablet' → P tablet')
    {tablet tablet' : Tablet} (h : P tablet) (hr : replayLogs l tablet = some tablet') :
    P tablet' := by
  induction l generalizing tablet with
  | nil => exact Option.some.inj hr ▸ h
  | cons cl l ih =>
    obtain ⟨t, ht, hrest⟩ := Option.bind_eq_some_iff.mp hr
    exact ih (fun cl' hcl' => hcl cl' (List.mem_cons_of_mem cl hcl'))
      (hcl cl List.mem_cons_self h ht) hrest

end Invariant

theorem noEmptyRow_replayLogs {l : List CommandLog} {tablet tablet' : Tablet}
    (h : tablet.NoEmptyRow) (hr : replayLogs l tablet = some tablet') : tablet'.NoEmptyRow :=
  replayLogs_invariant Tablet.NoEmptyRow (fun _ _ _ _ ht hcl =>
    replayCommand_invariant Tablet.NoEmptyRow (fun ht _ _ => Tablet.noEmptyRow_put ht _ _ _)
      (fun ht => Tablet.noEmptyRow_delete ht _ _) ht hcl) h hr

theorem short_replayLogs {l : List CommandLog} (hl : ∀ cl ∈ l, Logger.Short cl)
    {tablet tablet' : Tablet} (h : tablet.Short) (hr : replayLogs l tablet = some tablet') :
    tablet'.Short := by
  refine replayLogs_invariant Tablet.Short (fun cl hcl _ _ ht hrec =>
    replayCommand_invariant Tablet.Short ?_ ?_ ht hrec) h hr
  · rintro t ht value (rfl | rfl)
    · exact Tablet.short_put ht (hl cl hcl).row (hl cl hcl).column (hl cl hcl).value1
    · exact Tablet.short_put ht (hl cl hcl).row (hl cl hcl).column (hl cl hcl).value2
  · exact fun ht => Tablet.short_delete ht _ _

/-- **A replay of updates is their sequence of commands on the cells**, failures
included. -/
theorem cells_replayLogs (us : List Update) (tablet : Tablet) :
    (replayLogs (us.map Update.record) tablet).map Tablet.cells =
      exec (us.map Update.cmd) tablet.cells := by
  induction us generalizing tablet with
  | nil => rfl
  | cons u us ih =>
    rw [List.map_cons, List.map_cons, replayLogs, exec_cons, replayCommand_record]
    rcases hu : u.onTablet tablet with st | t
    · simp [Except.toOption, (Update.exec_cells_error hu).1]
    · rw [Update.exec_cells hu]
      exact ih t

end PennCloud
