import PennCloud.Frontend.Storage.Effects

/-!
# The loops over a list column

`storage_service.cc` keeps a list in a column as one text, with commas between the
entries. It is taken apart by `splitStringStorage`, a loop of `find` and `substr` with
one more piece behind the last comma, and put together again in four places, each time by
a loop of its own: `moveFile` and `moveFolder` drop an entry, `webStorageRenameFile` and
`webStorageRenameFolder` replace one. In `PennCloud.Frontend.Storage.Service` these are
`List.splitOn`, `List.filter` and `List.intercalate`; here are the loops, and the
theorems that they are the same.

Three of the loops say with an index that an entry is the first one, `moveFolder` has a
flag for that, which also says whether anything is left. The loop of
`webStorageRenameFolder` counts in an `int`, and so it is right for lists of fewer than
`2 ^ 31` entries (`PennCloud.rebuildRenameFolder_iff`). Longer ones do not fit into a
message (`PennCloud.FitsMessage`).

`PennCloud.listColumns` is the outcome: splitting and joining are inverse to each other,
and the loops change the entries they are meant to change and no others.
-/

namespace PennCloud

open Wire Calls Text

/-! ### Taking a text apart -/

/-- `std::string::find`, of a character from a place on. -/
def findFrom (str : Bytes) (delimiter : UInt8) (start : ℕ) : Option ℕ :=
  if delimiter ∈ str.drop start then some (start + (str.drop start).idxOf delimiter) else none

theorem findFrom_cases (str : Bytes) (delimiter : UInt8) (start : ℕ) :
    (findFrom str delimiter start = none ∧ delimiter ∉ str.drop start) ∨
      ∃ piece rest, str.drop start = piece ++ delimiter :: rest ∧ delimiter ∉ piece ∧
        findFrom str delimiter start = some (start + piece.length) ∧
        start + piece.length < str.length := by
  rw [findFrom]
  by_cases h : delimiter ∈ str.drop start
  · obtain ⟨piece, rest, heq, hnot⟩ := List.eq_append_cons_of_mem h
    have hlen := congrArg List.length heq
    rw [List.length_drop, List.length_append, List.length_cons] at hlen
    refine Or.inr ⟨piece, rest, heq, hnot, ?_, by omega⟩
    rw [if_pos h, heq, List.idxOf_append_of_notMem hnot, List.idxOf_cons_self, add_zero]
  · exact Or.inl ⟨if_neg h, h⟩

theorem lt_of_findFrom {str : Bytes} {delimiter : UInt8} {start pos : ℕ}
    (h : findFrom str delimiter start = some pos) : start ≤ pos ∧ pos < str.length := by
  rcases findFrom_cases str delimiter start with ⟨hnone, -⟩ | ⟨piece, -, -, -, hsome, hlt⟩
  · exact absurd (h.symm.trans hnone) (by simp)
  · obtain rfl := Option.some.inj (h.symm.trans hsome)
    exact ⟨Nat.le_add_right _ _, hlt⟩

/-- The loop of `splitStringStorage`, with the place it has come to. -/
def splitLoop (str : Bytes) (delimiter : UInt8) (start : ℕ) : List Bytes :=
  match _h : findFrom str delimiter start with
  | none => [str.drop start]
  | some pos => (str.drop start).take (pos - start) :: splitLoop str delimiter (pos + 1)
termination_by str.length - start
decreasing_by
  have hpos := lt_of_findFrom _h
  omega

/-- `splitStringStorage`, as it is written. -/
def splitTokens (str : Bytes) (delimiter : UInt8) : List Bytes := splitLoop str delimiter 0

theorem splitLoop_eq (str : Bytes) (delimiter : UInt8) (start : ℕ) :
    splitLoop str delimiter start = (str.drop start).splitOn delimiter := by
  induction start using splitLoop.induct str delimiter with
  | case1 start hnone =>
    rcases findFrom_cases str delimiter start with ⟨-, hnot⟩ | ⟨piece, -, -, -, hsome, -⟩
    · rw [splitLoop, hnone, List.splitOn_eq_singleton hnot]
    · exact absurd (hnone.symm.trans hsome) (by simp)
  | case2 start pos hfind ih =>
    rcases findFrom_cases str delimiter start with ⟨hnone, -⟩ | ⟨piece, rest, heq, hnot, hsome, -⟩
    · exact absurd (hnone.symm.trans hfind) (by simp)
    · obtain rfl := Option.some.inj (hfind.symm.trans hsome)
      have hrest : str.drop (start + piece.length + 1) = rest := by
        rw [add_assoc, ← List.drop_drop, heq]
        simp
      rw [splitLoop, hfind]
      simp only [ih, hrest]
      rw [heq, List.splitOn_append_cons_self, List.splitOn_eq_singleton hnot,
        Nat.add_sub_cancel_left, List.take_left]
      rfl

/-- **The loop cuts at the commas.** -/
theorem splitTokens_eq (str : Bytes) : splitTokens str 44 = splitStringStorage str :=
  splitLoop_eq str 44 0

/-! ### Putting entries together -/

/-- The loop that joins entries, with the number of its rounds: a comma is written before
all but the first. -/
def joinRounds (parts : List Bytes) (rounds : ℕ) : Bytes :=
  (List.range rounds).foldl
    (fun out i => (if i = 0 then out else out ++ [44]) ++ parts.getD i []) []

theorem joinRounds_eq {parts : List Bytes} {rounds : ℕ} (h : rounds ≤ parts.length) :
    joinRounds parts rounds = joinStorage (parts.take rounds) := by
  induction rounds with
  | zero => rfl
  | succ rounds ih =>
    have hget : parts.getD rounds [] = parts.get ⟨rounds, h⟩ := by
      rw [List.getD_eq_getElem?_getD, List.getElem?_eq_getElem h, Option.getD_some]
      rfl
    have htake : parts.take (rounds + 1) = parts.take rounds ++ [parts.get ⟨rounds, h⟩] :=
      List.take_succ_eq_append_getElem h
    have hround : joinRounds parts (rounds + 1) =
        (if rounds = 0 then joinRounds parts rounds else joinRounds parts rounds ++ [44]) ++
          parts.getD rounds [] := by
      rw [joinRounds, List.range_succ, List.foldl_append]
      rfl
    rw [hround, ih (by omega), hget, htake]
    rcases rounds with _ | rounds
    · simp [joinStorage]
    · have hne : parts.take (rounds + 1) ≠ [] :=
        List.ne_nil_of_length_pos (by rw [List.length_take]; omega)
      rw [if_neg (Nat.succ_ne_zero rounds), joinStorage, joinStorage, intercalate_concat hne,
        List.append_assoc]
      rfl

/-- The loop with a `size_t`. -/
def joinIndexed (parts : List Bytes) : Bytes := joinRounds parts parts.length

theorem joinIndexed_eq (parts : List Bytes) : joinIndexed parts = joinStorage parts := by
  rw [joinIndexed, joinRounds_eq le_rfl, List.take_length]

/-- The rounds of a loop up to a size that is converted to an `int`, which may make it
negative. -/
def intRounds (size : ℕ) : ℕ := if size % 2 ^ 32 < 2 ^ 31 then size % 2 ^ 32 else 0

theorem intRounds_of_lt {size : ℕ} (h : size < 2 ^ 31) : intRounds size = size := by
  have hmod : size % 2 ^ 32 = size := Nat.mod_eq_of_lt (by omega)
  rw [intRounds, hmod, if_pos h]

theorem intRounds_lt (size : ℕ) : intRounds size < 2 ^ 31 := by
  rw [intRounds]
  split_ifs with h
  · exact h
  · decide

/-! ### The four loops -/

/-- `moveFile`, on the listing of the folder the file leaves; nothing is put when no
entry is left. -/
def rebuildMoveFile (oldAbs srcMeta : Bytes) : Option Bytes :=
  let kept := (splitTokens srcMeta 44).filter fun item => item ≠ oldAbs
  if kept = [] then none else some (joinIndexed kept)

/-- One round of `moveFolder`: the flag and the text so far. -/
def rebuildItem (oldAbs : Bytes) (acc : Bool × Bytes) (item : Bytes) : Bool × Bytes :=
  if item = oldAbs then acc
  else (false, (if acc.1 then acc.2 else acc.2 ++ [44]) ++ item)

/-- `moveFolder`, on the listing of the folder the folder leaves. -/
def rebuildMoveFolder (oldAbs srcMeta : Bytes) : Option Bytes :=
  let rebuilt := (splitTokens srcMeta 44).foldl (rebuildItem oldAbs) (true, [])
  if rebuilt.1 then none else some rebuilt.2

/-- `webStorageRenameFile`, on the listing of the folder. -/
def rebuildRenameFile (oldAbs newAbs listing : Bytes) : Bytes :=
  joinIndexed ((splitTokens listing 44).map fun e => if e = oldAbs then newAbs else e)

/-- `webStorageRenameFolder`, on the listing of the parent: the loop counts in an
`int`. -/
def rebuildRenameFolder (oldAbs newAbs pmeta : Bytes) : Bytes :=
  let parts := (splitTokens pmeta 44).map fun p => if p = oldAbs then newAbs else p
  joinRounds parts (intRounds parts.length)

/-- What a call can return: the message it comes in is shorter than two gigabytes. -/
def FitsMessage (text : Bytes) : Prop := text.length + 1 < 2 ^ 31

/-! ### The loops of the service -/

theorem rebuildMoveFile_eq (oldAbs srcMeta : Bytes) :
    rebuildMoveFile oldAbs srcMeta =
      if keptEntries oldAbs srcMeta = [] then none
      else some (joinStorage (keptEntries oldAbs srcMeta)) := by
  rw [rebuildMoveFile, splitTokens_eq, joinIndexed_eq]
  rfl

theorem foldl_rebuildItem (oldAbs : Bytes) (items : List Bytes) :
    items.foldl (rebuildItem oldAbs) (true, []) =
      (decide (items.filter (fun item => item ≠ oldAbs) = []),
        joinStorage (items.filter fun item => item ≠ oldAbs)) := by
  induction items using List.reverseRecOn with
  | nil => rfl
  | append_singleton items item ih =>
    rw [List.foldl_append, ih, List.foldl_cons, List.foldl_nil, List.filter_append, rebuildItem]
    by_cases he : item = oldAbs
    · rw [if_pos he, List.filter_singleton]
      simp [he]
    · rw [if_neg he, List.filter_singleton]
      rcases hkept : items.filter (fun item => item ≠ oldAbs) with _ | ⟨e, kept⟩
      · simp [he, joinStorage]
      · have hjoin := intercalate_concat (List.cons_ne_nil e kept) (44 : UInt8) item
        rw [List.cons_append] at hjoin
        simp [he, joinStorage, hjoin]

/-- The flag and the index come to the same. -/
theorem rebuildMoveFolder_eq (oldAbs srcMeta : Bytes) :
    rebuildMoveFolder oldAbs srcMeta = rebuildMoveFile oldAbs srcMeta := by
  rw [rebuildMoveFile_eq, rebuildMoveFolder, foldl_rebuildItem, splitTokens_eq, keptEntries]
  simp

theorem rebuildRenameFile_eq (oldAbs newAbs listing : Bytes) :
    rebuildRenameFile oldAbs newAbs listing =
      joinStorage (replaceEntry oldAbs newAbs (splitStringStorage listing)) := by
  rw [rebuildRenameFile, joinIndexed_eq, splitTokens_eq]
  rfl

/-- A text has no more entries than letters, and one. -/
theorem length_splitTokens_le (str : Bytes) : (splitTokens str 44).length ≤ str.length + 1 := by
  rw [splitTokens_eq, splitStringStorage, length_splitOn]
  exact Nat.succ_le_succ List.count_le_length

theorem rebuildRenameFolder_eq (oldAbs newAbs : Bytes) {pmeta : Bytes}
    (h : (splitTokens pmeta 44).length < 2 ^ 31) :
    rebuildRenameFolder oldAbs newAbs pmeta = rebuildRenameFile oldAbs newAbs pmeta := by
  rw [rebuildRenameFolder, rebuildRenameFile, joinIndexed]
  simp only [List.length_map, intRounds_of_lt h]

/-- The loops of `moveFile` and `moveFolder`, in the service. -/
theorem removeEntry_eq_rebuild (baseKey folder entry : Bytes) :
    removeEntry baseKey folder entry = (do
      let srcMeta ← Get baseKey (metaCol folder)
      match rebuildMoveFile entry srcMeta with
      | none =>
        let _ ← Delete baseKey (metaCol folder)
        return ()
      | some text =>
        let _ ← Put baseKey (metaCol folder) text
        return ()) := by
  rw [removeEntry]
  refine congrArg _ (funext fun srcMeta => ?_)
  rw [rebuildMoveFile_eq, keptEntries]
  dsimp only
  split_ifs <;> rfl

/-! ### What becomes of the entries -/

theorem splitTokens_joinIndexed {entries : List Bytes} (h : ∀ e ∈ entries, 44 ∉ e)
    (hne : entries ≠ []) : splitTokens (joinIndexed entries) 44 = entries := by
  rw [splitTokens_eq, joinIndexed_eq]
  exact List.splitOn_intercalate 44 h hne

theorem notMem_of_mem_splitTokens {str e : Bytes} (h : e ∈ splitTokens str 44) : 44 ∉ e := by
  rw [splitTokens_eq] at h
  exact notMem_comma_of_mem h

theorem exists_rebuildMoveFile {oldAbs srcMeta : Bytes}
    (h : (splitTokens srcMeta 44).filter (fun e => e ≠ oldAbs) ≠ []) :
    ∃ text, rebuildMoveFile oldAbs srcMeta = some text ∧
      splitTokens text 44 = (splitTokens srcMeta 44).filter fun e => e ≠ oldAbs := by
  refine ⟨_, if_neg h, splitTokens_joinIndexed (fun e he => ?_) h⟩
  exact notMem_of_mem_splitTokens (List.mem_filter.mp he).1

/-- Entries that are replaced by one without a comma. -/
theorem notMem_replaced {oldAbs newAbs : Bytes} (hnew : 44 ∉ newAbs) (str : Bytes) :
    ∀ e ∈ (splitTokens str 44).map (fun e => if e = oldAbs then newAbs else e), 44 ∉ e := by
  intro e he
  obtain ⟨e', he', rfl⟩ := List.mem_map.mp he
  split_ifs
  · exact hnew
  · exact notMem_of_mem_splitTokens he'

theorem replaced_ne_nil (oldAbs newAbs str : Bytes) :
    (splitTokens str 44).map (fun e => if e = oldAbs then newAbs else e) ≠ [] := by
  rw [Ne, List.map_eq_nil_iff, splitTokens_eq]
  exact splitStringStorage_ne_nil str

theorem splitTokens_rebuildRenameFile {newAbs : Bytes} (hnew : 44 ∉ newAbs)
    (oldAbs listing : Bytes) :
    splitTokens (rebuildRenameFile oldAbs newAbs listing) 44 =
      (splitTokens listing 44).map fun e => if e = oldAbs then newAbs else e :=
  splitTokens_joinIndexed (notMem_replaced hnew listing) (replaced_ne_nil oldAbs newAbs listing)

/-- **The loop that counts in an `int`** keeps all entries exactly when there are fewer
than `2 ^ 31`: otherwise it has fewer rounds, or none. -/
theorem rebuildRenameFolder_iff {newAbs : Bytes} (hnew : 44 ∉ newAbs) (oldAbs pmeta : Bytes) :
    splitTokens (rebuildRenameFolder oldAbs newAbs pmeta) 44 =
        (splitTokens pmeta 44).map (fun e => if e = oldAbs then newAbs else e) ↔
      (splitTokens pmeta 44).length < 2 ^ 31 := by
  constructor
  · intro h
    by_contra hge
    have hlt := intRounds_lt (splitTokens pmeta 44).length
    have hlength := congrArg List.length h
    rw [rebuildRenameFolder, joinRounds_eq (by rw [List.length_map]; omega)] at hlength
    simp only [List.length_map] at hlength
    rcases eq_or_ne (intRounds (splitTokens pmeta 44).length) 0 with hzero | hpos
    · rw [hzero, List.take_zero, joinStorage, List.intercalate_nil, splitTokens_eq,
        splitStringStorage_of_notMem List.not_mem_nil, List.length_singleton] at hlength
      omega
    · have hsplit := @splitTokens_joinIndexed (((splitTokens pmeta 44).map
        fun e => if e = oldAbs then newAbs else e).take (intRounds (splitTokens pmeta 44).length))
        (fun e he => notMem_replaced hnew pmeta e (List.mem_of_mem_take he))
        (List.ne_nil_of_length_pos (by rw [List.length_take, List.length_map]; omega))
      rw [joinIndexed_eq] at hsplit
      rw [hsplit, List.length_take, List.length_map] at hlength
      omega
  · intro h
    rw [rebuildRenameFolder_eq oldAbs newAbs h]
    exact splitTokens_rebuildRenameFile hnew oldAbs pmeta

/-- **Splitting and joining are inverse, and the loops keep the other entries**, in
their order and number, the empty ones among them. -/
theorem listColumns :
    (∀ str : Bytes, joinIndexed (splitTokens str 44) = str ∧
      (splitTokens str 44).length = str.count 44 + 1) ∧
    (∀ entries : List Bytes, (∀ e ∈ entries, 44 ∉ e) → entries ≠ [] →
      splitTokens (joinIndexed entries) 44 = entries) ∧
    (∀ oldAbs listing : Bytes, (splitTokens listing 44).filter (fun e => e ≠ oldAbs) ≠ [] →
      ∃ text, rebuildMoveFile oldAbs listing = some text ∧
        rebuildMoveFolder oldAbs listing = some text ∧
        splitTokens text 44 = (splitTokens listing 44).filter fun e => e ≠ oldAbs) ∧
    ∀ oldAbs newAbs listing : Bytes, 44 ∉ newAbs →
      splitTokens (rebuildRenameFile oldAbs newAbs listing) 44 =
          (splitTokens listing 44).map (fun e => if e = oldAbs then newAbs else e) ∧
        (FitsMessage listing → splitTokens (rebuildRenameFolder oldAbs newAbs listing) 44 =
          (splitTokens listing 44).map fun e => if e = oldAbs then newAbs else e) := by
  refine ⟨fun str => ⟨?_, ?_⟩, fun entries h hne => splitTokens_joinIndexed h hne,
    fun oldAbs listing h => ?_, fun oldAbs newAbs listing hnew =>
      ⟨splitTokens_rebuildRenameFile hnew oldAbs listing, fun hfits => ?_⟩⟩
  · rw [joinIndexed_eq, splitTokens_eq]
    exact List.intercalate_splitOn 44
  · rw [splitTokens_eq]
    exact length_splitOn str 44
  · obtain ⟨text, htext, hsplit⟩ := exists_rebuildMoveFile h
    exact ⟨text, htext, (rebuildMoveFolder_eq oldAbs listing).trans htext, hsplit⟩
  · have hle := length_splitTokens_le listing
    rw [FitsMessage] at hfits
    exact (rebuildRenameFolder_iff hnew oldAbs listing).mpr (by omega)

/-- A listing with empty entries, and one entry twice. -/
theorem listColumns_empty_entries :
    (∃ text, rebuildMoveFile (ascii "a") (ascii ",a,b,,a") = some text ∧
      splitTokens text 44 = [[], ascii "b", []]) ∧
      splitTokens (rebuildRenameFolder (ascii "a") (ascii "c") (ascii ",a,b,,a")) 44 =
        [[], ascii "c", ascii "b", [], ascii "c"] := by
  have hsplit : splitTokens (ascii ",a,b,,a") 44 = [[], ascii "a", ascii "b", [], ascii "a"] := by
    rw [splitTokens_eq]
    decide
  obtain ⟨-, -, hremove, hrename⟩ := listColumns
  constructor
  · obtain ⟨text, htext, -, hkept⟩ := hremove (ascii "a") (ascii ",a,b,,a")
      (by rw [hsplit]; decide)
    exact ⟨text, htext, by rw [hkept, hsplit]; decide⟩
  · rw [(hrename (ascii "a") (ascii "c") (ascii ",a,b,,a") (by decide)).2
      (by rw [FitsMessage]; decide), hsplit]
    decide

end PennCloud
