import PennCloud.Backend.Recovery

/-!
# Copies that fail

A worker that comes back asks other workers for its tablets. The client of
`kvs_client.h` puts the chunks of a `CopyTablet` together as long as they come, and
when the call ends with an error it returns the text of the error instead, which is a
string like any other. `recoverAllTablets` has emptied the tablet before it looks at
the string, gives it to the reader of the binary form, and does not look at whether
that could make anything of it.

The reader can make nothing of it: the four letters `ERR ` announce half a billion
rows, and what follows them announces a first key that is longer than the text
(`PennCloud.deserializeTablet_err`). So the tablet is empty, and the caller goes on to
say that the worker is up. The tablet is then one of those it may be – the one of the
source, the one rebuilt from the files, the one before – only if one of these is empty
(`PennCloud.Worker.recovered_iff`).
-/

namespace PennCloud

open Wire KeyValue

/-! ### The text of an error as a tablet -/

/-- A string that is announced as longer than what there is. -/
theorem readString_eq_none {inp rest : Bytes} {len : ℕ} (h : readU32 inp = some (len, rest))
    (hlen : rest.length < len) : readString inp = none := by
  rw [readString, h, Option.bind_some]
  exact if_neg (Nat.not_le.mpr hlen)

/-- What comes behind the number of an error is no string. -/
theorem readString_number {code : StatusCode} {message : Bytes} (h : message.length < 2 ^ 21) :
    readString (ascii (toString code.number) ++ (ascii ": " ++ (message ++ ascii "\n"))) =
      none := by
  have htext : ascii ": " = [58, 32] := by decide
  have hend : ascii "\n" = [10] := by decide
  -- a number of two digits leaves the message behind the count
  have htwo : ∀ x y : UInt8, readString ([x, y] ++ (ascii ": " ++ (message ++ ascii "\n"))) =
      none := by
    intro x y
    rw [htext, hend]
    refine @readString_eq_none _ (message ++ [10]) (ofBytes [x, y, 58, 32]) rfl ?_
    simp only [List.length_append, List.length_singleton, ofBytes]
    have h32 : (32 : UInt8).toNat = 32 := rfl
    omega
  have hone : ∀ x : UInt8, readString ([x] ++ (ascii ": " ++ (message ++ ascii "\n"))) = none := by
    intro x
    rw [htext, hend]
    obtain ⟨y, rest, hrest⟩ : ∃ y rest, message ++ [10] = y :: rest := by
      rcases message with _ | ⟨y, rest⟩
      · exact ⟨10, [], rfl⟩
      · exact ⟨y, rest ++ [10], rfl⟩
    have hlen := congrArg List.length hrest
    rw [hrest]
    refine @readString_eq_none _ rest (ofBytes [x, 58, 32, y]) rfl ?_
    simp only [List.length_append, List.length_cons, List.length_nil] at hlen
    have h32 : (32 : UInt8).toNat = 32 := rfl
    simp only [ofBytes]
    omega
  cases code with
  | ok => exact hone 48
  | cancelled => exact hone 49
  | unknown => exact hone 50
  | invalidArgument => exact hone 51
  | deadlineExceeded => exact hone 52
  | notFound => exact hone 53
  | alreadyExists => exact hone 54
  | permissionDenied => exact hone 55
  | resourceExhausted => exact hone 56
  | failedPrecondition => exact hone 57
  | aborted => exact htwo 49 48
  | outOfRange => exact htwo 49 49
  | unimplemented => exact htwo 49 50
  | internal => exact htwo 49 51
  | unavailable => exact htwo 49 52
  | dataLoss => exact htwo 49 53
  | unauthenticated => exact htwo 49 54

/-- **The text of an error is read as an empty tablet**, and the reader says that it
failed. -/
theorem deserializeTablet_err {st : Status} (h : st.message.length < 2 ^ 21) :
    deserializeTablet ∅ st.err = (false, ∅) := by
  obtain ⟨outerSize, hsize⟩ : ∃ n, ofBytes (ascii "ERR ") = n + 1 := ⟨542265924, by decide⟩
  have herr : st.err = ascii "ERR " ++
      (ascii (toString st.code.number) ++ (ascii ": " ++ (st.message ++ ascii "\n"))) := by
    simp only [Status.err, List.append_assoc]
  have hne : st.err ≠ [] := by
    rw [herr]
    simp [ascii]
  have hread : readU32 st.err = some (outerSize + 1,
      ascii (toString st.code.number) ++ (ascii ": " ++ (st.message ++ ascii "\n"))) := by
    rw [herr, ← hsize]
    rfl
  have hrows : deserializeRows (outerSize + 1) ∅ (ascii (toString st.code.number) ++
      (ascii ": " ++ (st.message ++ ascii "\n"))) = (∅, none) := by
    rw [deserializeRows, readString_number h]
  rw [deserializeTablet, if_neg hne, hread]
  simp only [hrows, Option.isSome_none]

namespace Worker

/-! ### How a copy goes -/

/-- A tablet that another worker keeps: it fits the format, and has no row without
columns. -/
structure Replica where
  /-- The tablet. -/
  tablet : Tablet
  /-- Its lengths and counts are of 32 bits. -/
  fits : tablet.Fits
  /-- No row is empty. -/
  noEmptyRow : tablet.NoEmptyRow

/-- What becomes of a call of `CopyTablet`. -/
inductive CopyOutcome where
  /-- All chunks arrive. -/
  | complete (ord : IterOrder)
  /-- A number of chunks arrive, and then an error. -/
  | failed (ord : IterOrder) (sent : ℕ) (st : Status) (h : st.isOk = false)

/-- What the client receives. -/
def CopyOutcome.reply (r : Replica) : CopyOutcome → List Bytes × Status
  | .complete ord => (chunks chunkSize (serializeTablet ord r.tablet), Status.OK)
  | .failed ord sent st _ => ((chunks chunkSize (serializeTablet ord r.tablet)).take sent, st)

/-- A complete copy is exact. -/
theorem deserializeTablet_complete (r : Replica) (ord : IterOrder) :
    deserializeTablet ∅ (copyTabletClient ((CopyOutcome.complete ord).reply r)) =
      (true, r.tablet) := by
  rw [CopyOutcome.reply, copyTabletClient_chunks]
  exact deserializeTablet_exact ord r.fits r.noEmptyRow

/-- Of a copy that failed the client passes on the error, whatever had arrived. -/
theorem copyTabletClient_failed (r : Replica) (ord : IterOrder) (sent : ℕ) {st : Status}
    (h : st.isOk = false) :
    copyTabletClient ((CopyOutcome.failed ord sent st h).reply r) = st.err := by
  rw [CopyOutcome.reply, copyTabletClient, h, if_neg Bool.false_ne_true]

/-- What an error is taken for: an empty tablet – unless its message has megabytes, and
the reader finds a key in it. -/
def misread (st : Status) : Tablet :=
  if st.message.length < 2 ^ 21 then ∅ else (deserializeTablet ∅ st.err).2

theorem deserializeTablet_misread (st : Status) :
    (deserializeTablet ∅ st.err).2 = misread st := by
  rw [misread]
  split_ifs with h
  · rw [deserializeTablet_err h]
  · rfl

/-! ### The tablets after a recovery -/

section Recovered

variable (id : ℕ) (source : ℕ → ℕ → Replica) (outcome : ℕ → ℕ → CopyOutcome)
  (host : Fin 3 → Bytes) (w : Worker)

/-- What the clients return: for worker `c` and tablet `t`, what becomes of the call. -/
def copies (c t : ℕ) : Bytes := copyTabletClient ((outcome c t).reply (source c t))

/-- The tablets that slot `i` may have after a recovery: the one the source keeps, the
one rebuilt from the files, the one before. -/
def Restored (i : Fin 3) (kvs : Tablet) : Prop :=
  (∃ c, workerClientPtrs id (host i) = some c ∧
      kvs = (source c (storedTablet numTablets id i)).tablet) ∨
    (w.slots i).recoverFromLocal = some kvs ∨ kvs = (w.slots i).tablet

/-- For every copy that fails, the tablet that the error is taken for is one of them. -/
def FailsHarmlessly : Prop :=
  ∀ i c, workerClientPtrs id (host i) = some c → ∀ ord sent st h,
    outcome c (storedTablet numTablets id i) = .failed ord sent st h →
      Restored id source host w i (misread st)

variable {id source outcome host w}

/-- A slot that was copied is restored unless the copy failed. -/
theorem restored_copied_iff {i : Fin 3} {c : ℕ} (hc : workerClientPtrs id (host i) = some c) :
    Restored id source host w i
        (deserializeTablet ∅ (copies source outcome c (storedTablet numTablets id i))).2 ↔
      ∀ ord sent st h, outcome c (storedTablet numTablets id i) = .failed ord sent st h →
        Restored id source host w i (misread st) := by
  rcases hout : outcome c (storedTablet numTablets id i) with ord | ⟨ord, sent, st, hst⟩
  · rw [copies, hout, deserializeTablet_complete]
    exact ⟨fun _ _ _ _ _ heq => (nomatch heq), fun _ => Or.inl ⟨c, hc, rfl⟩⟩
  · rw [copies, hout, copyTabletClient_failed, deserializeTablet_misread]
    refine ⟨fun h ord' sent' st' hst' heq => ?_, fun h => h ord sent st hst rfl⟩
    obtain ⟨-, -, rfl⟩ := CopyOutcome.failed.inj heq
    exact h

/-- **Which tablets a recovery leaves.** When a recovery comes to its end, every tablet
is that of the source, the rebuilt one or the one before, exactly when the copies that
failed are taken for such a tablet. -/
theorem recovered_iff (hid : IsId numTablets id) (hhost : ∀ i, IsHost (host i)) {w' : Worker}
    (hrec : recoverAllTablets id (copies source outcome) (answers host) w = some w') :
    (∀ i, Restored id source host w i (w'.slots i).tablet) ↔
      FailsHarmlessly id source outcome host w := by
  obtain ⟨T, hT, rfl⟩ := (recoverAllTablets_eq_some hid _ hhost w w').mp hrec
  refine forall_congr' fun i => ?_
  have hi := hT i
  rw [recoverSlot] at hi
  split_ifs at hi with hdead
  · -- a tablet that is rebuilt is copied from nobody
    refine ⟨fun _ c hc => absurd hdead (ne_allDead_of_workerClientPtrs hc), fun _ => ?_⟩
    exact Or.inr (Or.inl hi)
  · obtain ⟨c, hc, hcopy⟩ := Option.map_eq_some_iff.mp hi
    have htablet : ((w.setTablets T).slots i).tablet = T i := rfl
    rw [htablet, ← hcopy, restored_copied_iff hc]
    refine ⟨fun h c' hc' => ?_, fun h => h c hc⟩
    obtain rfl : c = c' := Option.some.inj (hc.symm.trans hc')
    exact h

end Recovered

/-- A tablet with one cell, as every worker keeps it. -/
def oneCell : Replica where
  tablet := Tablet.put ∅ [1] [2] [3]
  fits := Tablet.fits_put_empty (by decide) (by decide) (by decide)
  noEmptyRow := Tablet.noEmptyRow_put Tablet.noEmptyRow_empty _ _ _

/-- A worker that has the cell in all three tablets and their logs. -/
def keepsOneCell : Worker where
  slots := fun _ =>
    ⟨oneCell.tablet, Logger.logs [Update.record (.put [1] [2] [3])], none, 0⟩
  running := true
  adminWorkerUp := false

theorem recoverFromLocal_keepsOneCell (i : Fin 3) :
    (keepsOneCell.slots i).recoverFromLocal = some oneCell.tablet := by
  have hlogs : Logger.getLogs (keepsOneCell.slots i).log =
      [Update.record (.put [1] [2] [3])] := by
    refine Logger.getLogs_logs fun cl hcl => ?_
    obtain rfl := List.mem_singleton.mp hcl
    exact ⟨by decide, by decide, by decide, by decide, by decide⟩
  rw [Slot.recoverFromLocal, hlogs]
  rfl

/-- No tablet that it may have after a recovery is empty. -/
theorem not_restored_empty {id : ℕ} {host : Fin 3 → Bytes} {i : Fin 3} :
    ¬Restored id (fun _ _ => oneCell) host keepsOneCell i ∅ := by
  have hne : oneCell.tablet ≠ ∅ := by
    intro h
    have hcell := congrArg (fun kvs => Tablet.cells kvs ([1], [2])) h
    exact absurd hcell (by decide)
  rintro (⟨c, -, h⟩ | h | h)
  · exact hne h.symm
  · rw [recoverFromLocal_keepsOneCell] at h
    exact hne (Option.some.inj h)
  · exact hne h.symm

theorem isOk_shutDown : shutDown.isOk = false := by decide

/-- Worker 1 recovers while worker 2, which it is sent to, is shut down. -/
theorem recovers_keepsOneCell : recoverAllTablets 1
    (copies (fun _ _ => oneCell) fun _ _ => .failed default 0 shutDown isOk_shutDown)
    (answers fun _ => address 2) keepsOneCell = some (keepsOneCell.setTablets fun _ => ∅) := by
  refine (recoverAllTablets_eq_some (by decide) _ (fun _ => Or.inr ⟨2, by decide, rfl⟩) _ _).mpr
    ⟨fun _ => ∅, fun i => ?_, rfl⟩
  rw [recoverSlot_address (by decide) (by decide) (by decide), copies, copyTabletClient_failed,
    deserializeTablet_misread]
  rfl

/-- **A failed copy empties a tablet** that the source keeps, that could be rebuilt, and
that was there. -/
theorem failed_copy_empties : ¬∀ (id : ℕ) (source : ℕ → ℕ → Replica)
    (outcome : ℕ → ℕ → CopyOutcome) (host : Fin 3 → Bytes) (w w' : Worker), IsId numTablets id →
      (∀ i, IsHost (host i)) →
      recoverAllTablets id (copies source outcome) (answers host) w = some w' →
        ∀ i, Restored id source host w i (w'.slots i).tablet := by
  intro h
  exact not_restored_empty (h 1 _ _ _ _ _ (by decide) (fun _ => Or.inr ⟨2, by decide, rfl⟩)
    recovers_keepsOneCell 0)

/-- The tablets of this worker are not restored, since the copies do not fail
harmlessly. -/
theorem recovered_keepsOneCell : ¬FailsHarmlessly 1 (fun _ _ => oneCell)
    (fun _ _ => .failed default 0 shutDown isOk_shutDown) (fun _ => address 2) keepsOneCell := by
  rw [← recovered_iff (by decide) (fun _ => Or.inr ⟨2, by decide, rfl⟩) recovers_keepsOneCell]
  exact fun h => not_restored_empty (h 0)

end Worker

end PennCloud
