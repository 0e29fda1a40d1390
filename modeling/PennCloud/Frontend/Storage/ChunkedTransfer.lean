import PennCloud.Frontend.Storage.Forms
import PennCloud.Lib.Receive
import Mathlib.Data.PNat.Notation

/-!
# A body in chunks, sent and received

`frontend/storage/storage_service.cc` writes bodies in chunks, in
`sendChunkedResponse`, and reads them, in `readChunkedBodyRaw`. The reader of
`PennCloud.readChunkedBodyRaw` works on the bytes that are still to come; here it works
on a socket, which hands them out in pieces of any size (`Incoming`).

* `PennCloud.Socket.readChunks_eq` – the pieces do not matter.
* `PennCloud.Socket.readChunkedBodyRaw_sent` – what was sent is read back, and what
  stands behind it on the stream is left there.

Nothing is asked of the data: it is taken by its length, so that line ends and size
lines within it are not seen. A size line consists of hexadecimal digits only
(`PennCloud.stoulHex_hexadecimal`), and the first line end behind it is its own
(`PennCloud.recvLine_line`).
-/

namespace PennCloud

open Wire Text Receive

/-! ### One chunk -/

/-- A line without a carriage return. -/
theorem recvLine_line {line : Bytes} (h : 13 ∉ line) (t : Bytes) :
    recvLine (line ++ (crlf ++ t)) = (line ++ crlf, t) := by
  have hfirst : FirstBehind crlf line := firstBehind_of_notMem h
  rw [recvLine, cut_of_firstBehind hfirst]

/-- A line end, and nothing before it. -/
theorem recvLine_crlf (t : Bytes) : recvLine (crlf ++ t) = (crlf, t) :=
  recvLine_line (List.not_mem_nil) t

/-- A hexadecimal digit is neither a blank nor a sign, nor does it stand for a base. -/
theorem not_special_of_hexDigit {b : UInt8} (h : (hexDigit b).isSome) :
    isSpace b = false ∧ b ≠ 45 ∧ b ≠ 43 ∧ b ≠ 120 ∧ b ≠ 88 := by
  have hall : ∀ n : Fin 256, (hexDigit (UInt8.ofFin n)).isSome →
      isSpace (UInt8.ofFin n) = false ∧ UInt8.ofFin n ≠ 45 ∧ UInt8.ofFin n ≠ 43 ∧
        UInt8.ofFin n ≠ 120 ∧ UInt8.ofFin n ≠ 88 := by decide +kernel
  exact hall b.toFin h

theorem withoutBase_of_digits {s : Bytes} (h : ∀ b ∈ s, (hexDigit b).isSome) :
    withoutBase s = s := by
  rw [withoutBase.eq_def]
  split
  · next x b s =>
    obtain ⟨-, -, -, hx, hX⟩ := not_special_of_hexDigit (h x (by simp))
    rw [if_neg fun hbase => hbase.1.elim hx hX]
  · rfl

/-- **A size is read as it was written.** -/
theorem stoulHex_hexadecimal {n : ℕ} (hn : n < 2 ^ 64) : stoulHex (hexadecimal n) = .ok n := by
  have hdigits : ∀ b ∈ hexadecimal n, (hexDigit b).isSome := fun b => isSome_hexDigit_of_mem
  obtain ⟨b, s, hs⟩ := List.exists_cons_of_ne_nil (hexadecimal_ne_nil n)
  obtain ⟨hspace, hminus, hplus, -, -⟩ :=
    not_special_of_hexDigit (hdigits b (hs ▸ List.mem_cons_self))
  have hdrop : (hexadecimal n).dropWhile isSpace = hexadecimal n := by
    rw [hs, List.dropWhile_cons_of_neg (by rw [hspace]; exact Bool.false_ne_true)]
  have hhead : (hexadecimal n).head? = some b := by rw [hs, List.head?_cons]
  have htake : (hexadecimal n).takeWhile (fun b => (hexDigit b).isSome) = hexadecimal n :=
    List.takeWhile_eq_self_iff.mpr hdigits
  have hneg : ¬some b = some 45 := fun h => hminus (Option.some.inj h)
  have hpos : ¬some b = some 43 := fun h => hplus (Option.some.inj h)
  simp only [stoulHex, hdrop, hhead, hneg, hpos, or_self, if_false, withoutBase_of_digits hdigits,
    htake, hexadecimal_ne_nil, foldl_hexadecimal, Nat.not_le.mpr hn]

theorem notMem_hexadecimal (n : ℕ) : (13 : UInt8) ∉ hexadecimal n := by
  intro h
  exact absurd (isSome_hexDigit_of_mem h) (by decide)

/-- A chunk as it is sent. -/
def chunkText (data : Bytes) : Bytes := hexadecimal data.length ++ crlf ++ data ++ crlf

theorem chunkHeader_hexadecimal {n : ℕ} (hn : n < 2 ^ 64) (t : Bytes) :
    chunkHeader (hexadecimal n ++ (crlf ++ t)) = .ok n := by
  have hlen : (hexadecimal n ++ crlf).length - 2 = (hexadecimal n).length := by
    rw [List.length_append]
    rfl
  rw [chunkHeader, recvLine_line (notMem_hexadecimal n)]
  dsimp only
  rw [hlen, List.take_left, stoulHex_hexadecimal hn]

/-- **A chunk is taken off the stream**, whatever its data is. -/
theorem readChunks_chunk {rounds : ℕ} {body data : Bytes} (hne : data ≠ [])
    (hfits : body.length + data.length ≤ maxVector) (t : Bytes) :
    readChunks (rounds + 1) body (chunkText data ++ t) = readChunks rounds (body ++ data) t := by
  have hmax : maxVector < 2 ^ 64 := by decide
  have hassoc : chunkText data ++ t =
      hexadecimal data.length ++ (crlf ++ (data ++ (crlf ++ t))) := by
    simp only [chunkText, List.append_assoc]
  have hline := recvLine_line (notMem_hexadecimal data.length) (data ++ (crlf ++ t))
  have hsize := chunkHeader_hexadecimal (show data.length < 2 ^ 64 by omega) (data ++ (crlf ++ t))
  have hlength : ¬(hexadecimal data.length ++ crlf).length < 2 := by
    rw [List.length_append]
    exact Nat.not_lt.mpr (Nat.le_add_left 2 _)
  have hzero : data.length ≠ 0 := fun h => hne (List.eq_nil_of_length_eq_zero h)
  have hall : ¬(data ++ (crlf ++ t)).length < data.length := by
    rw [List.length_append]
    omega
  rw [hassoc, readChunks, hsize, hline, if_neg hlength]
  dsimp only
  rw [if_neg hzero, if_neg (show ¬2 ^ 64 ≤ body.length + data.length by omega),
    if_neg (Nat.not_lt.mpr hfits), if_neg hall, List.take_left, behindChunk, hline,
    List.drop_left, recvLine_crlf]

/-- The chunk that ends a body, and the empty line behind it. -/
theorem readChunks_last (rounds : ℕ) (body t : Bytes) :
    readChunks (rounds + 1) body (ascii "0\r\n\r\n" ++ t) = .ok (body, t) := by
  have hassoc : ascii "0\r\n\r\n" ++ t = hexadecimal 0 ++ (crlf ++ (crlf ++ t)) := rfl
  have hline := recvLine_line (notMem_hexadecimal 0) (crlf ++ t)
  have hsize := chunkHeader_hexadecimal (show 0 < 2 ^ 64 by decide) (crlf ++ t)
  have hlength : ¬(hexadecimal 0 ++ crlf).length < 2 := by decide
  rw [hassoc, readChunks, hsize, hline, if_neg hlength]
  dsimp only
  rw [if_pos rfl, recvLine_crlf]

/-! ### Sending -/

/-- The loop of `sendChunkedResponse`: what is sent of the data from an offset on. -/
def sendLoop (chunkSize : ℕ+) (data : Bytes) (offset : ℕ) : List Bytes :=
  if _h : offset < data.length then
    (hexadecimal (min (chunkSize : ℕ) (data.length - offset)) ++ crlf) ::
      (data.drop offset).take (min (chunkSize : ℕ) (data.length - offset)) :: crlf ::
        sendLoop chunkSize data (offset + min (chunkSize : ℕ) (data.length - offset))
  else []
termination_by data.length - offset
decreasing_by
  have hpos : 0 < (chunkSize : ℕ) := chunkSize.pos
  omega

/-- `sendChunkedResponse`: the texts that are sent, the headers first. The size of the
chunks is 65536, if none is given. -/
def sendChunkedResponse (statusLine contentType data extraheaders : Bytes) (chunkSize : ℕ+) :
    List Bytes :=
  (statusLine ++ crlf ++ ascii "Content-Type: " ++ contentType ++ crlf ++ extraheaders ++ crlf ++
      ascii "Transfer-Encoding: chunked\r\n" ++ ascii "Connection: keep-alive\r\n" ++ crlf) ::
    (sendLoop chunkSize data 0 ++ [ascii "0\r\n\r\n"])

/-- A round sends a chunk. -/
theorem flatten_sendLoop {chunkSize : ℕ+} {data : Bytes} {offset : ℕ} (h : offset < data.length) :
    (sendLoop chunkSize data offset).flatten =
      chunkText ((data.drop offset).take chunkSize) ++
        (sendLoop chunkSize data
          (offset + min (chunkSize : ℕ) (data.length - offset))).flatten := by
  have hlen : ((data.drop offset).take chunkSize).length =
      min (chunkSize : ℕ) (data.length - offset) := by
    rw [List.length_take, List.length_drop]
  have htake : (data.drop offset).take (min (chunkSize : ℕ) (data.length - offset)) =
      (data.drop offset).take chunkSize := by
    rw [← List.length_drop, List.take_eq_take_iff]
    omega
  rw [sendLoop, dif_pos h, chunkText, hlen, htake]
  simp only [List.flatten_cons, List.append_assoc]

/-- What is sent is not shorter than the data. -/
theorem length_sendLoop (chunkSize : ℕ+) (data : Bytes) (offset : ℕ) :
    data.length - offset ≤ (sendLoop chunkSize data offset).flatten.length := by
  induction offset using (sendLoop.induct chunkSize data) with
  | case1 offset h ih =>
    rw [flatten_sendLoop h, chunkText]
    simp only [List.length_append, List.length_take, List.length_drop]
    omega
  | case2 offset h => omega

/-- **The data from an offset on is read back**, behind what has been read before. -/
theorem readChunks_sendLoop {chunkSize : ℕ+} {data : Bytes} {offset rounds : ℕ} {body : Bytes}
    (hfits : body.length + (data.length - offset) ≤ maxVector)
    (hrounds : data.length - offset < rounds) (r : Bytes) :
    readChunks rounds body ((sendLoop chunkSize data offset).flatten ++
      (ascii "0\r\n\r\n" ++ r)) = .ok (body ++ data.drop offset, r) := by
  have hpos : 0 < (chunkSize : ℕ) := chunkSize.pos
  induction rounds generalizing offset body with
  | zero => exact absurd hrounds (Nat.not_lt_zero _)
  | succ rounds ih =>
    by_cases h : offset < data.length
    · have hlen : ((data.drop offset).take chunkSize).length =
          min (chunkSize : ℕ) (data.length - offset) := by
        rw [List.length_take, List.length_drop]
      have hne : (data.drop offset).take chunkSize ≠ [] :=
        List.ne_nil_of_length_pos (by omega)
      have hdrop : (data.drop offset).take chunkSize ++
          data.drop (offset + min (chunkSize : ℕ) (data.length - offset)) = data.drop offset := by
        rw [← List.drop_drop, ← hlen]
        exact List.prefix_iff_eq_append.mp (List.take_prefix _ _)
      rw [flatten_sendLoop h, List.append_assoc, readChunks_chunk hne (by omega), ih,
        List.append_assoc, hdrop]
      · rw [List.length_append, hlen]
        omega
      · omega
    · rw [sendLoop, dif_neg h, List.flatten_nil, List.nil_append, readChunks_last,
        List.drop_of_length_le (Nat.not_lt.mp h), List.append_nil]

namespace Socket

/-! ### Receiving -/

/-- `recvLine`: one character after the other, until they end in a line end. -/
def recvLine (sock : Incoming UInt8) : Bytes × Incoming UInt8 := readThrough crlf [] sock

/-- The loop of `readChunkedBodyRaw`. -/
def readChunks : ℕ → Bytes → Incoming UInt8 → Except Abort (Bytes × Incoming UInt8)
  | 0, _, _ => .error .running
  | rounds + 1, body, clientSock =>
    let (sizeLine, behindLine) := recvLine clientSock
    if sizeLine.length < 2 then .error .runtimeError
    else
      match stoulHex (sizeLine.take (sizeLine.length - 2)) with
      | .error e => .error e
      | .ok chunkSize =>
        if chunkSize = 0 then .ok (body, (recvLine behindLine).2)
        else if 2 ^ 64 ≤ body.length + chunkSize then .error .undefined
        else if maxVector < body.length + chunkSize then .error .lengthError
        else
          match collect chunkSize behindLine with
          | none => .error .runtimeError
          | some (data, behindData) => readChunks rounds (body ++ data) (recvLine behindData).2

/-- `readChunkedBodyRaw`. -/
def readChunkedBodyRaw (clientSock : Incoming UInt8) : Except Abort (Bytes × Incoming UInt8) :=
  readChunks (clientSock.items.length + 1) [] clientSock

theorem recvLine_eq (sock : Incoming UInt8) :
    ((recvLine sock).1, (recvLine sock).2.items) = PennCloud.recvLine sock.items := by
  have hne : crlf ≠ [] := List.cons_ne_nil _ _
  have hnot : ¬crlf <:+: ([] : Bytes) := by decide
  rw [recvLine, readThrough_eq hne hnot, List.nil_append, cutBehind, PennCloud.recvLine]
  rcases cut crlf sock.items with _ | ⟨line, rest⟩
  · rfl
  · rfl

/-- **The pieces do not matter**: a body is read from a socket as it is from the bytes
that will come. -/
theorem readChunks_eq (rounds : ℕ) (body : Bytes) (clientSock : Incoming UInt8) :
    (readChunks rounds body clientSock).map (fun r => (r.1, r.2.items)) =
      PennCloud.readChunks rounds body clientSock.items := by
  induction rounds generalizing body clientSock with
  | zero => rfl
  | succ rounds ih =>
    have hline := recvLine_eq clientSock
    rcases hsock : recvLine clientSock with ⟨sizeLine, behindLine⟩
    rw [hsock] at hline
    rw [readChunks, PennCloud.readChunks, chunkHeader, hsock, ← hline]
    dsimp only
    split_ifs with hshort
    · rfl
    rcases stoulHex (sizeLine.take (sizeLine.length - 2)) with e | chunkSize
    · rfl
    dsimp only
    split_ifs with hzero hwrap hfits hall
    · rw [← recvLine_eq behindLine]
      rfl
    · rfl
    · rfl
    · rw [collect_eq_none hall]
      rfl
    · obtain ⟨behindData, hcollect, hitems⟩ := collect_eq_some (Nat.not_lt.mp hall)
      rw [hcollect, behindChunk, ← hline, ← hitems, ← recvLine_eq behindData]
      exact ih _ _

/-- **What was sent is read back**, however it arrives, and what follows it is left on the
stream. The data is that of a `std::string`, and so not longer than a vector can be. -/
theorem readChunkedBodyRaw_sent (statusLine contentType data extraheaders r : Bytes)
    (chunkSize : ℕ+) (hdata : data.length ≤ maxVector) (clientSock : Incoming UInt8)
    (hsock : clientSock.items =
      (sendChunkedResponse statusLine contentType data extraheaders chunkSize).tail.flatten ++ r) :
    ∃ left, readChunkedBodyRaw clientSock = .ok (data, left) ∧ left.items = r := by
  have hbody : clientSock.items =
      (sendLoop chunkSize data 0).flatten ++ (ascii "0\r\n\r\n" ++ r) := by
    rw [hsock, sendChunkedResponse, List.tail_cons, List.flatten_append, List.append_assoc]
    rfl
  have hrounds : data.length - 0 < clientSock.items.length + 1 := by
    have hlen := length_sendLoop chunkSize data 0
    rw [hbody, List.length_append]
    omega
  have hfits : ([] : Bytes).length + (data.length - 0) ≤ maxVector := by
    rwa [List.length_nil, zero_add, Nat.sub_zero]
  have hstream : PennCloud.readChunks (clientSock.items.length + 1) [] clientSock.items =
      .ok (data, r) :=
    (congrArg _ hbody).trans (readChunks_sendLoop hfits hrounds r)
  have hread := readChunks_eq (clientSock.items.length + 1) [] clientSock
  rw [hstream] at hread
  rcases hsocket : readChunks (clientSock.items.length + 1) [] clientSock with e | ⟨body, left⟩
  · rw [hsocket] at hread
    exact absurd hread (by simp [Except.map])
  · rw [hsocket] at hread
    obtain ⟨hdone, hleft⟩ := Prod.mk.inj (Except.ok.inj hread)
    exact ⟨left, hdone ▸ hsocket, hleft⟩

/-- A line end, a size line and another line end, in chunks of two characters. They arrive
in pieces that are no lines, with a letter behind them. -/
theorem readChunkedBodyRaw_sent_line :
    ∃ left, readChunkedBodyRaw
        ⟨[[50], [13], [10, 13, 10, 13], [10, 50, 13, 10, 50], [13, 13, 10], [49, 13, 10, 10, 13],
          [10, 48], [13, 10, 13, 10, 71]], by decide⟩ =
      .ok ([13, 10, 50, 13, 10], left) ∧ left.items = [71] :=
  readChunkedBodyRaw_sent (ascii "HTTP/1.1 200 OK") (ascii "text/plain") [13, 10, 50, 13, 10]
    (ascii "Content-Disposition: attachment") [71] 2 (by decide) _ (by decide +kernel)

end Socket

end PennCloud
