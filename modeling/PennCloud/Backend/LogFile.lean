import PennCloud.Backend.Logger
import PennCloud.Lib.Codec

/-!
# The file behind the command log

`utils/logger.cc`, class `Logger`: one file under two streams. `out_` appends to it,
and after `clearLog`, which opens it again without `app`, writes where it has come to;
`in_` has a place of its own and stays failed once it has met the end of the file,
until `getLogs` clears it and goes back to the beginning. `PennCloud.Logger.Streams` is
the file with the two, and what a `Logger` does to it is `Streams.logCommand`,
`Streams.clearLog` and `Streams.getLogs`.

* `PennCloud.Logger.Streams.getLogs_fst` – what is read is what
  `PennCloud.Logger.getLogs` reads from the bytes of the file, wherever `in_` stands.
* `PennCloud.Logger.Streams.getLogs_calls` – over any sequence of calls: the commands
  logged since the last `clearLog`, and of a file that is cut those still there in
  full.
* `PennCloud.Logger.Streams.getLogs_torn_iff` – when a crash leaves a piece of a record
  at the end and the next `Logger` appends behind it: in general the records behind the
  piece are lost, because the piece says how long its string is.
-/

namespace PennCloud

open Wire

namespace Logger

/-! ### Records are a code -/

theorem readString_eq_some_iff {inp str rest : Bytes} :
    readString inp = some (str, rest) ↔ inp = writeString str ++ rest ∧ str.length < 2 ^ 32 := by
  constructor
  · intro h
    exact ⟨readString_eq_append h, readString_lt h⟩
  · rintro ⟨rfl, h⟩
    exact readString_writeString h rest

theorem readNextCommand_eq_some {inp rest : Bytes} {cl : CommandLog}
    (h : readNextCommand inp = some (cl, rest)) : inp = record cl ++ rest ∧ Short cl := by
  simp only [readNextCommand, Option.bind_eq_bind, Option.bind_eq_some_iff, Option.pure_def,
    Option.some.injEq, Prod.exists, readString_eq_some_iff] at h
  obtain ⟨s₁, r₁, ⟨rfl, h₁⟩, s₂, r₂, ⟨rfl, h₂⟩, s₃, r₃, ⟨rfl, h₃⟩, s₄, r₄, ⟨rfl, h₄⟩,
    s₅, r₅, ⟨rfl, h₅⟩, he⟩ := h
  obtain ⟨rfl, rfl⟩ := Prod.mk.inj he
  exact ⟨by simp [record], h₁, h₂, h₃, h₄, h₅⟩

/-- The records, as a code. -/
def recordCodec : Codec CommandLog UInt8 where
  Valid := Short
  encode := record
  decode := readNextCommand
  decode_encode := readNextCommand_record
  decode_eq_some := readNextCommand_eq_some
  decode_nil := readNextCommand_nil

theorem encodeAll_recordCodec (l : List CommandLog) : recordCodec.encodeAll l = logs l := rfl

theorem reads_readLogs (inp : Bytes) : ∃ q, recordCodec.Reads inp (readLogs inp) q := by
  induction inp using readLogs.induct with
  | case1 inp hread =>
    rw [readLogs, hread]
    exact ⟨inp, Codec.reads_nil_iff.mpr ⟨rfl, hread⟩⟩
  | case2 inp cl rest hread ih =>
    obtain ⟨q, hq⟩ := ih
    rw [readLogs, hread]
    exact ⟨q, Codec.reads_cons_iff.mpr ⟨rest, hread, hq⟩⟩

/-- What `getLogs` returns is what the code lets one read. -/
theorem getLogs_eq_iff {file : Bytes} {l : List CommandLog} :
    getLogs file = l ↔ ∃ q, recordCodec.Reads file l q := by
  obtain ⟨q, hq⟩ := reads_readLogs file
  constructor
  · rintro rfl
    exact ⟨q, hq⟩
  · rintro ⟨q', hq'⟩
    exact (hq.unique hq').1

/-! ### The two streams -/

/-- A `Logger`: the file, with the two streams on it. -/
structure Streams where
  /-- The bytes of the file. -/
  file : Bytes
  /-- Where `out_` writes; at the end, whatever that is, when it was opened with `app`. -/
  put : Option ℕ
  /-- Where `in_` reads. -/
  get : ℕ
  /-- `in_` has no error flag set. -/
  good : Bool

/-- `Logger::Logger`, on a path that holds the file: nothing of it is lost. -/
def Streams.open (file : Bytes) : Streams := ⟨file, none, 0, true⟩

namespace Streams

/-- `out_.write`; a gap before the place is filled with zeros. -/
def write (s : Streams) (bytes : Bytes) : Streams :=
  match s.put with
  | none => { s with file := s.file ++ bytes }
  | some p =>
    { s with
      file := s.file.take p ++ List.replicate (p - s.file.length) 0 ++ bytes ++
        s.file.drop (p + bytes.length)
      put := some (p + bytes.length) }

/-- `Logger::writeString`. -/
def writeString (s : Streams) (str : Bytes) : Streams :=
  (s.write (u32 str.length)).write (str.take (str.length % 2 ^ 32))

/-- `Logger::logCommand`. -/
def logCommand (s : Streams) (cl : CommandLog) : Streams :=
  ((((s.writeString cl.command).writeString cl.row).writeString cl.column).writeString
    cl.value1).writeString cl.value2

/-- `in_.read`: when the file ends before, `in_` has read what there was and stays
failed. -/
def read (n : ℕ) : OptionT (StateM Streams) Bytes := fun s =>
  if s.good then
    match Wire.read n (s.file.drop s.get) with
    | some (bytes, _) => (some bytes, { s with get := s.get + n })
    | none => (none, { s with get := max s.get s.file.length, good := false })
  else (none, s)

/-- `Logger::readString`. -/
def readString : OptionT (StateM Streams) Bytes := do
  let len ← read 4
  read (ofBytes len)

/-- `Logger::readNextCommand`. -/
def readNextCommand : OptionT (StateM Streams) CommandLog := do
  let command ← readString
  let row ← readString
  let column ← readString
  let value1 ← readString
  let value2 ← readString
  return ⟨command, row, column, value1, value2⟩

/-- `in_.clear()` and `in_.seekg(0, std::ios::beg)`. -/
def rewind (s : Streams) : Streams := { s with get := 0, good := true }

/-- `Logger::clearLog`: both streams are opened again, `out_` without `app`. -/
def clearLog (_s : Streams) : Streams := ⟨[], some 0, 0, true⟩

/-! ### Reading -/

/-- The bytes in front of `in_`. -/
def left (s : Streams) : Bytes := s.file.drop s.get

/-- Reading leaves the file and the place of `out_` alone. -/
def SameFile (s s' : Streams) : Prop := s'.file = s.file ∧ s'.put = s.put

/-- A function that reads from `in_` does what the function on bytes does. -/
structure Follows {α : Type} (R : OptionT (StateM Streams) α)
    (r : Bytes → Option (α × Bytes)) : Prop where
  /-- The file is the same. -/
  sameFile : ∀ s, SameFile s (R s).2
  /-- It fails where the function fails. -/
  failed : ∀ s, s.good = true → r s.left = none → (R s).1 = none
  /-- It returns what the function returns, and `in_` stands before what is left. -/
  returned : ∀ s x rest, s.good = true → r s.left = some (x, rest) →
    (R s).1 = some x ∧ (R s).2.good = true ∧ (R s).2.left = rest

/-- It does not succeed while an error flag is set. -/
def Stuck {α : Type} (R : OptionT (StateM Streams) α) : Prop :=
  ∀ s : Streams, s.good = false → (R s).1 = none

variable {α β : Type}

theorem bind_apply (R : OptionT (StateM Streams) α) (R' : α → OptionT (StateM Streams) β)
    (s : Streams) :
    (R >>= R') s = match R s with
      | (some x, s') => R' x s'
      | (none, s') => (none, s') := by
  rcases h : R s with ⟨_ | x, s'⟩
  · simp only [bind, OptionT.bind, OptionT.mk, StateT.bind, h]
    rfl
  · simp only [bind, OptionT.bind, OptionT.mk, StateT.bind, h]

theorem follows_pure (x : α) : Follows (pure x) fun inp => some (x, inp) where
  sameFile _ := ⟨rfl, rfl⟩
  failed _ _ h := absurd h (by simp)
  returned s y rest hgood h := by
    obtain ⟨rfl, rfl⟩ := Prod.mk.inj (Option.some.inj h)
    exact ⟨rfl, hgood, rfl⟩

theorem Follows.bind {R : OptionT (StateM Streams) α} {r : Bytes → Option (α × Bytes)}
    {R' : α → OptionT (StateM Streams) β} {r' : α → Bytes → Option (β × Bytes)}
    (h : Follows R r) (h' : ∀ x, Follows (R' x) (r' x)) :
    Follows (R >>= R') fun inp => (r inp).bind fun (x, rest) => r' x rest where
  sameFile s := by
    have hfirst := h.sameFile s
    rw [bind_apply]
    rcases hR : R s with ⟨_ | x, s'⟩
    · rwa [hR] at hfirst
    · rw [hR] at hfirst
      obtain ⟨hfile, hput⟩ := (h' x).sameFile s'
      exact ⟨hfile.trans hfirst.1, hput.trans hfirst.2⟩
  failed s hgood hnone := by
    rw [bind_apply]
    rcases hr : r s.left with _ | ⟨x, rest⟩
    · have hfail := h.failed s hgood hr
      rcases hR : R s with ⟨o, s'⟩
      obtain rfl : o = none := by rwa [hR] at hfail
      rfl
    · obtain ⟨hsome, hgood', hleft⟩ := h.returned s x rest hgood hr
      rcases hR : R s with ⟨o, s'⟩
      rw [hR] at hsome hgood' hleft
      obtain rfl : o = some x := hsome
      rw [hr, Option.bind_some, ← hleft] at hnone
      exact (h' x).failed s' hgood' hnone
  returned s y rest hgood hsome := by
    obtain ⟨⟨x, inp⟩, hr, hr'⟩ := Option.bind_eq_some_iff.mp hsome
    obtain ⟨hx, hgood', hleft⟩ := h.returned s x inp hgood hr
    rw [bind_apply]
    rcases hR : R s with ⟨o, s'⟩
    rw [hR] at hx hgood' hleft
    obtain rfl : o = some x := hx
    exact (h' x).returned s' y rest hgood' (hleft ▸ hr')

theorem Stuck.bind {R : OptionT (StateM Streams) α} (h : Stuck R)
    (R' : α → OptionT (StateM Streams) β) : Stuck (R >>= R') := by
  intro s hgood
  have hnone := h s hgood
  rw [bind_apply]
  rcases hR : R s with ⟨o, s'⟩
  obtain rfl : o = none := by rwa [hR] at hnone
  rfl

theorem follows_read (n : ℕ) : Follows (read n) (Wire.read n) where
  sameFile s := by
    rw [read]
    split_ifs
    · split <;> exact ⟨rfl, rfl⟩
    · exact ⟨rfl, rfl⟩
  failed s hgood hnone := by
    rw [left] at hnone
    simp only [read, hgood, if_true, hnone]
  returned s bytes rest hgood hsome := by
    rw [left] at hsome
    obtain ⟨hbytes, hlen⟩ := read_eq_some hsome
    simp only [read, hgood, if_true, hsome]
    refine ⟨trivial, trivial, ?_⟩
    rw [left, ← List.drop_drop, hbytes, ← hlen, List.drop_left]

theorem stuck_read (n : ℕ) : Stuck (read n) := by
  intro s hgood
  rw [read, hgood, if_neg Bool.false_ne_true]

theorem follows_readString : Follows readString Logger.readString := by
  have h := (follows_read 4).bind fun len => follows_read (ofBytes len)
  have heq : Logger.readString = fun inp =>
      (Wire.read 4 inp).bind fun r => Wire.read (ofBytes r.1) r.2 := by
    funext inp
    rw [Logger.readString, PennCloud.readString, readU32, Option.bind_map]
    rfl
  rw [heq]
  exact h

theorem follows_readNextCommand : Follows readNextCommand Logger.readNextCommand :=
  follows_readString.bind fun command => follows_readString.bind fun row =>
    follows_readString.bind fun column => follows_readString.bind fun value1 =>
      follows_readString.bind fun value2 =>
        follows_pure (⟨command, row, column, value1, value2⟩ : CommandLog)

theorem stuck_readNextCommand : Stuck readNextCommand := ((stuck_read 4).bind _).bind _

/-- A record that has been read lies behind `in_`. -/
theorem left_readNextCommand {s s' : Streams} {cl : CommandLog}
    (h : readNextCommand s = (some cl, s')) : s'.left.length < s.left.length := by
  rcases hgood : s.good with _ | _
  · have hnone := stuck_readNextCommand s hgood
    rw [h] at hnone
    exact absurd hnone (by simp)
  · rcases hr : Logger.readNextCommand s.left with _ | ⟨cl', rest⟩
    · have hnone := follows_readNextCommand.failed s hgood hr
      rw [h] at hnone
      exact absurd hnone (by simp)
    · obtain ⟨-, -, hleft⟩ := follows_readNextCommand.returned s cl' rest hgood hr
      rw [h] at hleft
      rw [hleft]
      exact readNextCommand_length hr

/-- The loop of `getLogs`. -/
def readLogs (s : Streams) : List CommandLog × Streams :=
  match _h : readNextCommand s with
  | (none, s') => ([], s')
  | (some cl, s') => (cl :: (readLogs s').1, (readLogs s').2)
termination_by s.left.length
decreasing_by all_goals exact left_readNextCommand _h

/-- `Logger::getLogs`. -/
def getLogs (s : Streams) : List CommandLog × Streams := s.rewind.readLogs

/-- The loop reads what the loop on the bytes reads. -/
theorem readLogs_left {s : Streams} (hgood : s.good = true) :
    s.readLogs.1 = Logger.readLogs s.left ∧ SameFile s s.readLogs.2 := by
  induction s using readLogs.induct with
  | case1 s s' hread =>
    have hfile := follows_readNextCommand.sameFile s
    have hnone : Logger.readNextCommand s.left = none := by
      rcases hr : Logger.readNextCommand s.left with _ | ⟨cl, rest⟩
      · rfl
      · have hsome := (follows_readNextCommand.returned s cl rest hgood hr).1
        rw [hread] at hsome
        exact absurd hsome (by simp)
    rw [hread] at hfile
    rw [readLogs, hread, Logger.readLogs, hnone]
    exact ⟨rfl, hfile⟩
  | case2 s cl s' hread ih =>
    have hfile := follows_readNextCommand.sameFile s
    obtain ⟨rest, hr⟩ : ∃ rest, Logger.readNextCommand s.left = some (cl, rest) := by
      rcases hr : Logger.readNextCommand s.left with _ | ⟨cl', rest⟩
      · have hnone := follows_readNextCommand.failed s hgood hr
        rw [hread] at hnone
        exact absurd hnone (by simp)
      · have hsome := (follows_readNextCommand.returned s cl' rest hgood hr).1
        rw [hread] at hsome
        exact ⟨rest, by rw [Option.some.inj hsome]⟩
    obtain ⟨-, hgood', hleft⟩ := follows_readNextCommand.returned s cl rest hgood hr
    rw [hread] at hfile hgood' hleft
    obtain ⟨hlogs, hfile', hput'⟩ := ih hgood'
    rw [readLogs, hread, Logger.readLogs, hr]
    exact ⟨by simp only [hlogs, hleft], hfile'.trans hfile.1, hput'.trans hfile.2⟩

/-- **What is read depends on the bytes of the file alone**, not on where `in_` stands
or whether it has failed. -/
theorem getLogs_fst (s : Streams) : s.getLogs.1 = Logger.getLogs s.file :=
  (readLogs_left (s := s.rewind) rfl).1

theorem sameFile_getLogs (s : Streams) : SameFile s s.getLogs.2 :=
  (readLogs_left (s := s.rewind) rfl).2

/-! ### Writing -/

/-- `out_` stands at the end of the file. -/
def AtEnd (s : Streams) : Prop := ∀ p, s.put = some p → p = s.file.length

theorem atEnd_open (file : Bytes) : (Streams.open file).AtEnd := by
  intro p h
  exact absurd h (by simp [Streams.open])

theorem AtEnd.write {s : Streams} (h : s.AtEnd) (bytes : Bytes) :
    (s.write bytes).file = s.file ++ bytes ∧ (s.write bytes).AtEnd := by
  rcases hput : s.put with _ | p
  · rw [Streams.write, hput]
    exact ⟨rfl, fun p hp => absurd hp (by simp)⟩
  · obtain rfl := h p hput
    rw [Streams.write, hput]
    have hfile : s.file.take s.file.length ++ List.replicate (s.file.length - s.file.length) 0 ++
        bytes ++ s.file.drop (s.file.length + bytes.length) = s.file ++ bytes := by
      simp
    refine ⟨hfile, fun p hp => ?_⟩
    obtain rfl := Option.some.inj hp
    simp only [hfile, List.length_append]

theorem AtEnd.writeString {s : Streams} (h : s.AtEnd) (str : Bytes) :
    (s.writeString str).file = s.file ++ Logger.writeString str ∧ (s.writeString str).AtEnd := by
  obtain ⟨hlen, hlen'⟩ := h.write (u32 str.length)
  obtain ⟨hstr, hstr'⟩ := hlen'.write (str.take (str.length % 2 ^ 32))
  refine ⟨?_, hstr'⟩
  rw [Streams.writeString, hstr, hlen, List.append_assoc]
  rfl

theorem AtEnd.logCommand {s : Streams} (h : s.AtEnd) (cl : CommandLog) :
    (s.logCommand cl).file = Logger.logCommand s.file cl ∧ (s.logCommand cl).AtEnd := by
  obtain ⟨h₁, h₁'⟩ := h.writeString cl.command
  obtain ⟨h₂, h₂'⟩ := h₁'.writeString cl.row
  obtain ⟨h₃, h₃'⟩ := h₂'.writeString cl.column
  obtain ⟨h₄, h₄'⟩ := h₃'.writeString cl.value1
  obtain ⟨h₅, h₅'⟩ := h₄'.writeString cl.value2
  refine ⟨?_, h₅'⟩
  rw [Streams.logCommand, h₅, h₄, h₃, h₂, h₁]
  simp [Logger.logCommand, record]

/-- Commands logged one after the other. -/
theorem AtEnd.foldl_logCommand {s : Streams} (h : s.AtEnd) (l : List CommandLog) :
    (l.foldl Streams.logCommand s).file = s.file ++ logs l := by
  induction l generalizing s with
  | nil => simp
  | cons cl l ih =>
    obtain ⟨hfile, hend⟩ := h.logCommand cl
    rw [List.foldl_cons, ih hend, hfile, Logger.logCommand, List.append_assoc]
    rfl

end Streams

/-! ### Any sequence of calls -/

/-- What is done with a command log. -/
inductive LogCall where
  /-- Log a command. -/
  | logCommand (cl : CommandLog)
  /-- Clear the log. -/
  | clearLog
  /-- Read the log. -/
  | getLogs
  /-- The `Logger` is destroyed, and a new one made on the same path. -/
  | reopen

namespace LogCall

/-- The `Logger` afterwards. -/
def exec (s : Streams) : LogCall → Streams
  | logCommand cl => s.logCommand cl
  | clearLog => s.clearLog
  | getLogs => s.getLogs.2
  | reopen => Streams.open s.file

/-- **The commands logged since the last `clearLog`.** -/
def logged (l : List CommandLog) : LogCall → List CommandLog
  | logCommand cl => l ++ [cl]
  | clearLog => []
  | getLogs => l
  | reopen => l

/-- One call keeps the file the records of the commands logged. -/
theorem exec_logs {s : Streams} {l : List CommandLog} (hend : s.AtEnd) (hfile : s.file = logs l)
    (call : LogCall) :
    (exec s call).AtEnd ∧ (exec s call).file = logs (logged l call) := by
  cases call with
  | logCommand cl =>
    obtain ⟨hcl, hend'⟩ := hend.logCommand cl
    refine ⟨hend', ?_⟩
    rw [exec, hcl, hfile]
    exact logCommand_logs l cl
  | clearLog =>
    refine ⟨fun p hp => ?_, rfl⟩
    exact (Option.some.inj hp).symm
  | getLogs =>
    obtain ⟨hsame, hput⟩ := s.sameFile_getLogs
    refine ⟨fun p hp => ?_, hsame.trans hfile⟩
    rw [exec, hsame]
    exact hend p (hput ▸ hp)
  | reopen => exact ⟨Streams.atEnd_open s.file, hfile⟩

theorem short_logged {l : List CommandLog} (hl : ∀ cl ∈ l, Short cl) {call : LogCall}
    (h : ∀ cl, call = logCommand cl → Short cl) : ∀ cl ∈ logged l call, Short cl := by
  cases call with
  | logCommand cl =>
    intro cl' hcl'
    rcases List.mem_append.mp hcl' with hmem | hmem
    · exact hl cl' hmem
    · exact h cl' (congrArg logCommand (List.mem_singleton.mp hmem).symm)
  | clearLog => exact fun cl hcl => absurd hcl List.not_mem_nil
  | getLogs => exact hl
  | reopen => exact hl

/-- A run of calls keeps it so. -/
theorem foldl_exec_logs {calls : List LogCall} (h : ∀ cl, logCommand cl ∈ calls → Short cl)
    {s : Streams} {l : List CommandLog} (hl : ∀ cl ∈ l, Short cl) (hend : s.AtEnd)
    (hfile : s.file = logs l) :
    (calls.foldl exec s).AtEnd ∧ (calls.foldl exec s).file = logs (calls.foldl logged l) ∧
      ∀ cl ∈ calls.foldl logged l, Short cl := by
  induction calls generalizing s l with
  | nil => exact ⟨hend, hfile, hl⟩
  | cons call calls ih =>
    obtain ⟨hend', hfile'⟩ := exec_logs hend hfile call
    have hfirst := short_logged hl fun cl hcl => h cl (hcl ▸ List.mem_cons_self)
    exact ih (fun cl hcl => h cl (List.mem_cons_of_mem call hcl)) hfirst hend' hfile'

/-- The file after a run on a new log. -/
theorem foldl_exec_open {calls : List LogCall} (h : ∀ cl, logCommand cl ∈ calls → Short cl) :
    (calls.foldl exec (Streams.open [])).file = logs (calls.foldl logged []) ∧
      ∀ cl ∈ calls.foldl logged [], Short cl :=
  (foldl_exec_logs h (by simp) (Streams.atEnd_open []) rfl).2

end LogCall

/-- The bytes of a file that are cut give the records that are still there in full. -/
theorem getLogs_take {l : List CommandLog} (hl : ∀ cl ∈ l, Short cl) (k : ℕ) :
    getLogs ((logs l).take k) <+: l ∧ logs (getLogs ((logs l).take k)) <+: (logs l).take k ∧
      ∀ l', l' <+: l → logs l' <+: (logs l).take k → l' <+: getLogs ((logs l).take k) := by
  obtain ⟨l₁, q, hreads, hpre, hmax⟩ := Codec.reads_take (C := recordCodec) hl k
  have hget : getLogs ((logs l).take k) = l₁ := getLogs_eq_iff.mpr ⟨q, hreads⟩
  rw [hget]
  refine ⟨hpre, ?_, fun l' hl' hfits => hmax l' hl' ?_⟩
  · have hinput : (logs l).take k = logs l₁ ++ q := hreads.input
    rw [hinput]
    exact List.prefix_append _ _
  · have hlen := hfits.length_le
    rw [List.length_take] at hlen
    rw [encodeAll_recordCodec]
    omega

/-- **The command log returns exactly what was written**: after any calls, the commands
logged since the last `clearLog`; and when the file is cut anywhere, the longest of
their beginnings whose records it still holds. -/
theorem getLogs_calls (calls : List LogCall)
    (h : ∀ cl, LogCall.logCommand cl ∈ calls → Short cl) :
    (calls.foldl LogCall.exec (Streams.open [])).getLogs.1 = calls.foldl LogCall.logged [] ∧
      ∀ (k : ℕ) (s : Streams),
        s.file = (calls.foldl LogCall.exec (Streams.open [])).file.take k →
          s.getLogs.1 <+: calls.foldl LogCall.logged [] ∧ logs s.getLogs.1 <+: s.file ∧
            ∀ l, l <+: calls.foldl LogCall.logged [] → logs l <+: s.file → l <+: s.getLogs.1 := by
  obtain ⟨hfile, hshort⟩ := LogCall.foldl_exec_open h
  constructor
  · rw [Streams.getLogs_fst, hfile]
    exact getLogs_logs hshort
  · intro k s hs
    rw [hfile] at hs
    rw [Streams.getLogs_fst, hs]
    exact getLogs_take hshort k

/-- It is logged, read, cleared, logged and read, and then cut in the second record. -/
theorem getLogs_calls_cleared :
    let cl : CommandLog := ⟨ascii "PUT", [7], [], [8, 9], ascii "NULL"⟩
    let calls := [LogCall.logCommand cl, .getLogs, .clearLog, .logCommand cl, .getLogs,
      .logCommand cl]
    (calls.foldl LogCall.exec (Streams.open [])).getLogs.1 = [cl, cl] ∧
      (Streams.open ((calls.foldl LogCall.exec (Streams.open [])).file.take 32)).getLogs.1 <+:
        [cl, cl] := by
  intro cl calls
  have hshort : ∀ cl', LogCall.logCommand cl' ∈ calls → Short cl' := by
    intro cl' hcl'
    obtain rfl : cl' = cl := by simpa [calls] using hcl'
    constructor <;> decide
  obtain ⟨hlogs, hcut⟩ := getLogs_calls calls hshort
  exact ⟨hlogs, (hcut 32 _ rfl).1⟩

/-! ### A torn record -/

/-- The `Logger` made after a crash that left the records of `l` and behind them the
piece `p` of a further one, with the commands of `l'` logged since. -/
def restarted (l : List CommandLog) (p : Bytes) (l' : List CommandLog) : Streams :=
  l'.foldl Streams.logCommand
    (Streams.open ((l.foldl Streams.logCommand (Streams.open [])).file ++ p))

theorem getLogs_restarted (l : List CommandLog) (p : Bytes) (l' : List CommandLog) :
    (restarted l p l').getLogs.1 = getLogs (logs l ++ (p ++ logs l')) := by
  rw [Streams.getLogs_fst, restarted, (Streams.atEnd_open _).foldl_logCommand, Streams.open,
    (Streams.atEnd_open _).foldl_logCommand, Streams.open, List.nil_append, List.append_assoc]

/-- **A torn record**: the log survives exactly when the piece may as well be moved
behind the records that follow it, with no record at the front of what then stands
behind them – so when nothing is torn or nothing follows, and by coincidence. -/
theorem getLogs_torn_iff {l l' : List CommandLog} (hl : ∀ cl ∈ l, Short cl)
    (hl' : ∀ cl ∈ l', Short cl) (p : Bytes) :
    (restarted l p l').getLogs.1 = l ++ l' ↔
      ∃ q, p ++ logs l' = logs l' ++ q ∧ ∀ cl, Short cl → ¬record cl <+: q := by
  rw [getLogs_restarted, getLogs_eq_iff]
  exact Iff.trans (exists_congr fun q => Codec.reads_append_iff hl) (Codec.reads_torn_iff hl')

/-- Such a coincidence: a byte of a record of empty strings, and another such record
behind it. -/
theorem getLogs_torn_zeros :
    (restarted [] [0] [⟨[], [], [], [], []⟩]).getLogs.1 = [⟨[], [], [], [], []⟩] := by
  have hshort : ∀ cl ∈ [(⟨[], [], [], [], []⟩ : CommandLog)], Short cl := by
    intro cl hcl
    obtain rfl := List.mem_singleton.mp hcl
    constructor <;> decide
  exact (getLogs_torn_iff (l := []) (by simp) hshort [0]).mpr
    ⟨[0], by decide, recordCodec.decode_eq_none_iff.mp (by decide)⟩

/-- Nothing is lost when nothing was torn or nothing is logged behind it. -/
theorem getLogs_restarted_intact {l l' : List CommandLog} (hl : ∀ cl ∈ l, Short cl)
    (hl' : ∀ cl ∈ l', Short cl) {cl : CommandLog} (hcl : Short cl) {p : Bytes}
    (hp : p <+: record cl) (hne : p ≠ record cl) (h : p = [] ∨ l' = []) :
    (restarted l p l').getLogs.1 = l ++ l' := by
  rw [getLogs_restarted, getLogs_eq_iff]
  rcases h with rfl | rfl
  · exact ⟨[], (Codec.reads_append_iff hl).mpr (Codec.reads_encodeAll (C := recordCodec) hl')⟩
  · have hstop := recordCodec.decode_of_isPrefix hcl hp hne
    rw [logs_nil, List.append_nil]
    exact ⟨p, (Codec.reads_append_iff hl).mpr (Codec.reads_nil_iff.mpr ⟨rfl, hstop⟩)⟩

/-- The ten bytes of a torn `PUT` take the lengths of the next one for their own, and
it is lost. -/
theorem getLogs_torn_fails :
    let put (row value : String) : CommandLog :=
      ⟨ascii "PUT", ascii row, ascii "c", ascii value, ascii "NULL"⟩
    let p := (record (put "b" "2")).take 10
    (p <+: record (put "b" "2") ∧ p ≠ record (put "b" "2")) ∧
      (restarted [put "a" "1"] p [put "c" "3"]).getLogs.1 = [put "a" "1"] ∧
        (restarted [put "a" "1"] p [put "c" "3"]).getLogs.1 ≠ [put "a" "1"] ++ [put "c" "3"] := by
  intro put p
  have hshort : Short (put "a" "1") := by constructor <;> decide
  have hlost : (restarted [put "a" "1"] p [put "c" "3"]).getLogs.1 = [put "a" "1"] := by
    rw [getLogs_restarted, getLogs_eq_iff]
    refine ⟨p ++ logs [put "c" "3"], rfl, ?_, by decide⟩
    exact fun cl hcl => List.mem_singleton.mp hcl ▸ hshort
  refine ⟨⟨List.take_prefix _ _, by decide⟩, hlost, ?_⟩
  rw [hlost]
  decide

end Logger

end PennCloud
