import PennCloud.Backend.LogFile

/-!
# A log with a piece of a record at its end

`Logger` opens a log file for appending and does not look at what is in it. When the
file ends with a piece of a record, the next record is written behind the piece, and
`getLogs` reads the two as if they were one: the piece says how long its string is,
and takes what it still needs from the record that follows.

`PennCloud.Logger.exists_put_lost` says that this always does harm. Whatever the piece
is and whatever tablet the log has led to so far, into every row there is a `PUT` –
of a short value – that the log does not replay as it was made. Not every `PUT` is
lost, as `PennCloud.Logger.getLogs_torn_zeros` shows; but a value that stands nowhere
in the piece and in the record in front of the value can only be replayed from its
own record, and then the piece is read as complete records, or as the beginning of a
`CPUT` with the same row and column as the `PUT`, which one of two columns excludes.
-/

namespace PennCloud

open Wire

namespace Logger

/-! ### How long a piece can be -/

theorem writeString_eq {str : Bytes} (h : str.length < 2 ^ 32) :
    writeString str = u32 str.length ++ str := by
  rw [writeString, PennCloud.writeString, Nat.mod_eq_of_lt h, List.take_length]

theorem length_writeString {str : Bytes} (h : str.length < 2 ^ 32) :
    (writeString str).length = 4 + str.length := by
  rw [writeString_eq h, List.length_append, length_u32]

/-- A string can be read when there is enough left for the longest one. -/
theorem exists_readString (inp : Bytes) (h : 4 + 2 ^ 32 ≤ inp.length) :
    ∃ str rest, readString inp = some (str, rest) ∧ inp.length ≤ 4 + 2 ^ 32 + rest.length := by
  have hfour : readU32 inp = some (ofBytes (inp.take 4), inp.drop 4) := by
    rw [readU32, Wire.read, if_pos (by omega), Option.map_some]
  have hlt := readU32_lt hfour
  have hdrop : (inp.drop 4).length = inp.length - 4 := List.length_drop
  have hread : readString inp = some ((inp.drop 4).take (ofBytes (inp.take 4)),
      (inp.drop 4).drop (ofBytes (inp.take 4))) := by
    rw [readString, PennCloud.readString, hfour, Option.bind_some]
    exact if_pos (by omega)
  refine ⟨_, _, hread, ?_⟩
  rw [List.length_drop, hdrop]
  omega

/-- **A piece of a record is shorter than five strings.** -/
theorem length_of_readNextCommand {p : Bytes} (h : readNextCommand p = none) :
    p.length < 5 * (4 + 2 ^ 32) := by
  by_contra hge
  obtain ⟨s₁, p₁, h₁, hle₁⟩ := exists_readString p (by omega)
  obtain ⟨s₂, p₂, h₂, hle₂⟩ := exists_readString p₁ (by omega)
  obtain ⟨s₃, p₃, h₃, hle₃⟩ := exists_readString p₂ (by omega)
  obtain ⟨s₄, p₄, h₄, hle₄⟩ := exists_readString p₃ (by omega)
  obtain ⟨s₅, p₅, h₅, -⟩ := exists_readString p₄ (by omega)
  simp [readNextCommand, h₁, h₂, h₃, h₄, h₅] at h

/-! ### Where a command is read -/

/-- What `getLogs` reads stands in the file, behind complete records. -/
theorem exists_record_of_mem {file : Bytes} {cl : CommandLog} (h : cl ∈ getLogs file) :
    ∃ l rest, file = logs l ++ (record cl ++ rest) ∧ (∀ c ∈ l, Short c) ∧ Short cl := by
  obtain ⟨q, hinput, hvalid, -⟩ := reads_readLogs file
  obtain ⟨l, l', hl⟩ := List.append_of_mem (show cl ∈ readLogs file from h)
  refine ⟨l, logs l' ++ q, ?_, fun c hc => hvalid c ?_, hvalid cl h⟩
  · rw [encodeAll_recordCodec, hl, logs_append, logs, logs, List.flatMap_cons] at hinput
    rw [hinput, List.append_assoc, List.append_assoc]
    rfl
  · rw [hl]
    exact List.mem_append_left _ hc

/-- Complete records are read, and then what is behind them. -/
theorem getLogs_append {l : List CommandLog} (hl : ∀ cl ∈ l, Short cl) (rest : Bytes) :
    getLogs (logs l ++ rest) = l ++ getLogs rest := by
  obtain ⟨q, hq⟩ := reads_readLogs rest
  exact getLogs_eq_iff.mpr ⟨q, (Codec.reads_append_iff hl).mpr hq⟩

/-- **Every log is complete records and a piece** that is not read. -/
theorem exists_piece (file : Bytes) : ∃ l p, file = logs l ++ p ∧ (∀ cl ∈ l, Short cl) ∧
    readNextCommand p = none := by
  obtain ⟨p, hinput, hvalid, hstop⟩ := reads_readLogs file
  exact ⟨readLogs file, p, hinput, hvalid, hstop⟩

/-- A piece that is not read does not begin with complete records. -/
theorem eq_nil_of_prefix_logs {p : Bytes} (hp : readNextCommand p = none) {l : List CommandLog}
    (hl : ∀ cl ∈ l, Short cl) (h : logs l <+: p) : l = [] := by
  obtain ⟨rest, rfl⟩ := h
  cases l with
  | nil => rfl
  | cons cl l =>
    rw [logs, List.flatMap_cons, List.append_assoc,
      readNextCommand_record (hl cl List.mem_cons_self)] at hp
    exact absurd hp (by simp)

/-- A cell that a replay has changed was written by one of its commands. -/
theorem exists_writer {l : List CommandLog} {kvs kvs' : Tablet} (h : replayLogs l kvs = some kvs')
    {row column value : Bytes} (hold : kvs.cells (row, column) ≠ some value)
    (hnew : kvs'.cells (row, column) = some value) :
    ∃ cl ∈ l, cl.row = row ∧ cl.column = column ∧
      (cl.command = ascii "PUT" ∧ cl.value1 = value ∨
        cl.command = ascii "CPUT" ∧ cl.value2 = value) := by
  by_contra hno
  refine replayLogs_invariant (fun t => t.cells (row, column) ≠ some value) ?_ hold h hnew
  intro cl hcl t t' ht hreplay
  have hput : ∀ v, (cl.command = ascii "PUT" ∧ cl.value1 = v ∨
      cl.command = ascii "CPUT" ∧ cl.value2 = v) →
      (t.put cl.row cl.column v).cells (row, column) ≠ some value := by
    intro v hv
    rw [Tablet.cells_put]
    rcases eq_or_ne (row, column) (cl.row, cl.column) with he | hne
    · obtain ⟨hrow, hcolumn⟩ := Prod.mk.inj he
      rw [he, Function.update_self]
      intro hvalue
      obtain rfl := Option.some.inj hvalue
      exact hno ⟨cl, hcl, hrow.symm, hcolumn.symm, hv⟩
    · rw [Function.update_of_ne hne]
      exact ht
  rw [replayCommand] at hreplay
  split_ifs at hreplay with h₁ h₂ h₃
  · obtain rfl := Option.some.inj hreplay
    exact hput _ (Or.inl ⟨h₁, rfl⟩)
  · rcases hc : t.cput cl.row cl.column cl.value1 cl.value2 with st | t₂
    · simp [hc, Except.toOption] at hreplay
    · obtain rfl : t₂ = t' := by simpa [hc, Except.toOption] using hreplay
      obtain ⟨-, rfl⟩ := Tablet.cput_ok hc
      exact hput _ (Or.inr ⟨h₂, rfl⟩)
  · obtain rfl := Option.some.inj hreplay
    rw [Tablet.cells_delete]
    rcases eq_or_ne (row, column) (cl.row, cl.column) with he | hne
    · rw [he, Function.update_self]
      simp
    · rw [Function.update_of_ne hne]
      exact ht

/-! ### The update that is lost -/

/-- The strings of a record in front of its values. -/
def header (command row column : Bytes) : Bytes :=
  writeString command ++ (writeString row ++ writeString column)

theorem record_eq_header (cl : CommandLog) : record cl =
    header cl.command cl.row cl.column ++ (writeString cl.value1 ++ writeString cl.value2) := by
  simp only [record, header, List.append_assoc]

section Piece

variable {p row column : Bytes}

theorem length_header {command : Bytes} (hcommand : command.length < 2 ^ 32)
    (hrow : row.length < 2 ^ 32) (hcolumn : column.length < 2 ^ 32) :
    (header command row column).length = 12 + command.length + row.length + column.length := by
  rw [header, List.length_append, List.length_append, length_writeString hcommand,
    length_writeString hrow, length_writeString hcolumn]
  omega

/-- One of two columns does not have the length that a piece asks for. -/
theorem exists_column (o : Option UInt8) :
    ∃ column : Bytes, column.length < 2 ^ 32 ∧ o ≠ some (UInt8.ofNat column.length) := by
  by_cases h : o = some 0
  · refine ⟨[97], by decide, fun hc => ?_⟩
    rw [h] at hc
    exact absurd hc (by decide)
  · exact ⟨[], by decide, h⟩

/-- A `CPUT` of the same cell does not begin with the piece and the header of the
`PUT`, when the column is the right one of two. -/
theorem header_ne {old : Bytes} (hrow : row.length < 2 ^ 32) (hcolumn : column.length < 2 ^ 32)
    (hlen : 5 ≤ p.length)
    (hne : (p ++ (writeString (ascii "PUT") ++ writeString row))[12 + row.length]? ≠
      some (UInt8.ofNat column.length)) :
    header (ascii "CPUT") row column ++ writeString old ≠
      p ++ header (ascii "PUT") row column := by
  intro heq
  have hput : (writeString (ascii "PUT")).length = 7 := by decide
  have hcput : (writeString (ascii "CPUT")).length = 8 := by decide
  have hwrow := length_writeString hrow
  -- both sides at the place where the `CPUT` has the length of its column
  have hleft : (header (ascii "CPUT") row column ++ writeString old)[12 + row.length]? =
      some (UInt8.ofNat column.length) := by
    have hsplit : header (ascii "CPUT") row column ++ writeString old =
        (writeString (ascii "CPUT") ++ writeString row) ++ (u32 column.length ++
          (column ++ writeString old)) := by
      rw [header, writeString_eq hcolumn]
      simp only [List.append_assoc]
    rw [hsplit, List.getElem?_append_right (by rw [List.length_append]; omega), List.length_append,
      hcput, hwrow, show 12 + row.length - (8 + (4 + row.length)) = 0 by omega]
    rfl
  have hright : (p ++ header (ascii "PUT") row column)[12 + row.length]? =
      (p ++ (writeString (ascii "PUT") ++ writeString row))[12 + row.length]? := by
    rw [header, ← List.append_assoc (writeString (ascii "PUT")), ← List.append_assoc p]
    refine List.getElem?_append_left ?_
    rw [List.length_append, List.length_append]
    omega
  exact hne (hright.symm.trans (heq ▸ hleft))

/-- The only place behind a piece for a value that stands nowhere in front of its own
place: the bytes in front of it are as many. -/
theorem length_before {value s t : Bytes} (hlen : value.length = 64)
    (hletters : ∀ x ∈ value, x = 1 ∨ x = 2)
    (hwithin : ¬value <:+: p ++ (header (ascii "PUT") row column ++ u32 64))
    (heq : s ++ (u32 64 ++ (value ++ t)) =
      p ++ (header (ascii "PUT") row column ++ (writeString value ++ writeString (ascii "NULL")))) :
    s.length = p.length + (header (ascii "PUT") row column).length := by
  have hno : ∀ m : UInt8, m ≠ 1 → m ≠ 2 → m ∉ value := fun m h₁ h₂ hm => (hletters m hm).elim h₁ h₂
  have hsixtyFour : u32 64 = [64, 0, 0] ++ [0] := by decide
  have hnull : writeString (ascii "NULL") = 4 :: [0, 0, 0, 78, 85, 76, 76] := by decide
  rw [writeString_eq (by rw [hlen]; decide), hlen, hnull, hsixtyFour] at heq
  rw [hsixtyFour] at hwithin
  -- the length of the value ends with a zero, and behind the value there is a four
  have hone := length_eq_of_word (v := value) (m := 0) (n := 4) (z := [0, 0, 0, 78, 85, 76, 76])
    (h := p ++ (header (ascii "PUT") row column ++ [64, 0, 0])) (s := s ++ ([64, 0, 0] ++ [0]))
    (t := t) (hno 0 (by decide) (by decide)) (hno 4 (by decide) (by decide))
    (by simpa only [List.append_assoc] using hwithin) (by rw [hlen]; decide)
    (by simpa using heq)
  simp only [List.length_append, List.length_cons, List.length_nil] at hone
  omega

/-- A `PUT` of such a value is not replayed as it was made. -/
theorem replayLogs_ne_put (hne : p ≠ []) (hp : readNextCommand p = none)
    (hrow : row.length < 2 ^ 32) (hcolumn : column.length < 2 ^ 32)
    (hbyte : (p ++ (writeString (ascii "PUT") ++ writeString row))[12 + row.length]? ≠
      some (UInt8.ofNat column.length)) {value : Bytes} (hlen : value.length = 64)
    (hletters : ∀ x ∈ value, x = 1 ∨ x = 2)
    (hwithin : ¬value <:+: p ++ (header (ascii "PUT") row column ++ u32 64)) {kvs : Tablet}
    (hnew : kvs.cells (row, column) ≠ some value) :
    replayLogs (getLogs (p ++ record (Update.put row column value).record)) kvs ≠
      some (kvs.put row column value) := by
  intro hreplay
  have hput : (ascii "PUT").length = 3 := by decide
  have hcput : (ascii "CPUT").length = 4 := by decide
  have hlput := length_header (show (ascii "PUT").length < 2 ^ 32 by decide) hrow hcolumn
  have hlcput := length_header (show (ascii "CPUT").length < 2 ^ 32 by decide) hrow hcolumn
  -- the command that has written the value, and where it was read
  have hthere : (kvs.put row column value).cells (row, column) = some value := by
    rw [Tablet.cells_put, Function.update_self]
  obtain ⟨cl, hmem, hclrow, hclcolumn, hwriter⟩ := exists_writer hreplay hnew hthere
  obtain ⟨l, rest, hread, hl, hcl⟩ := exists_record_of_mem hmem
  have hfile : p ++ (header (ascii "PUT") row column ++
      (writeString value ++ writeString (ascii "NULL"))) =
        logs l ++ (header cl.command row column ++
          (writeString cl.value1 ++ (writeString cl.value2 ++ rest))) := by
    rw [record_eq_header, record_eq_header, hclrow, hclcolumn, List.append_assoc,
      List.append_assoc] at hread
    exact hread
  have hwvalue : ∀ v : Bytes, v = value → writeString v = u32 64 ++ value := by
    rintro v rfl
    rw [writeString_eq (by rw [hlen]; decide), hlen]
  rcases hwriter with ⟨hcommand, hv⟩ | ⟨hcommand, hv⟩
  · -- its own record: then the piece is complete records
    rw [hcommand] at hfile
    have hbefore := length_before (s := logs l ++ header (ascii "PUT") row column)
      (t := writeString cl.value2 ++ rest) hlen hletters hwithin (by
        rw [hfile, hwvalue _ hv]
        simp only [List.append_assoc])
    rw [List.length_append] at hbefore
    obtain ⟨rfl, -⟩ := List.append_inj hfile (by omega)
    exact hne (congrArg logs (eq_nil_of_prefix_logs hp hl (List.prefix_refl _)))
  · -- the record of a `CPUT` that begins in the piece: then the piece begins with it
    rw [hcommand] at hfile
    have hbefore := length_before
      (s := logs l ++ (header (ascii "CPUT") row column ++ writeString cl.value1))
      (t := rest) hlen hletters hwithin (by
        rw [hfile, hwvalue _ hv]
        simp only [List.append_assoc])
    rw [List.length_append, List.length_append, hlput, hlcput, length_writeString hcl.value1]
      at hbefore
    have hpre : logs l <+: p := List.prefix_of_prefix_length_le
      (hfile ▸ List.prefix_append (logs l) _) (List.prefix_append p _) (by omega)
    obtain rfl := eq_nil_of_prefix_logs hp hl hpre
    rw [logs_nil, List.length_nil] at hbefore
    rw [logs_nil, List.nil_append, ← List.append_assoc p,
      ← List.append_assoc (header (ascii "CPUT") row column)] at hfile
    obtain ⟨heq, -⟩ := List.append_inj hfile (by
      rw [List.length_append, List.length_append, hlput, hlcput, length_writeString hcl.value1]
      omega)
    exact header_ne hrow hcolumn (by omega) hbyte heq.symm

/-- **An update is lost behind a piece of a record.** Whatever the piece is and whatever
tablet the records in front of it lead to, there is a `PUT` into the row that the log
does not replay as it was made. -/
theorem exists_put_lost (hne : p ≠ []) (hp : readNextCommand p = none)
    (hrow : row.length < 2 ^ 32) (kvs : Tablet) :
    ∃ column value, (Update.put row column value).Short ∧
      replayLogs (getLogs (p ++ record (Update.put row column value).record)) kvs ≠
        some (kvs.put row column value) := by
  obtain ⟨column, hcolumn, hbyte⟩ :=
    exists_column (p ++ (writeString (ascii "PUT") ++ writeString row))[12 + row.length]?
  have hput : (ascii "PUT").length < 2 ^ 32 := by decide
  have hnull : (ascii "NULL").length < 2 ^ 32 := by decide
  have hthree : (ascii "PUT").length = 3 := by decide
  have hplen := length_of_readNextCommand hp
  -- a value that stands nowhere in front of its place, and that is not there yet
  obtain ⟨value, hlen, hletters, hwithin, hold⟩ := exists_word_not_infix
    (show (1 : UInt8) ≠ 2 by decide) (n := 64)
    (l := p ++ (header (ascii "PUT") row column ++ u32 64))
    (w := (kvs.cells (row, column)).toList) (by
      have hone : (kvs.cells (row, column)).toList.length ≤ 1 := by
        cases kvs.cells (row, column) <;> simp
      rw [List.length_append, List.length_append, length_header hput hrow hcolumn, length_u32]
      omega)
  have hvalue : value.length < 2 ^ 32 := by
    rw [hlen]
    decide
  have hnew : kvs.cells (row, column) ≠ some value := by simpa using hold
  exact ⟨column, value, ⟨hput, hrow, hcolumn, hvalue, hnull⟩,
    replayLogs_ne_put hne hp hrow hcolumn hbyte hlen hletters hwithin hnew⟩

end Piece

end Logger

end PennCloud
