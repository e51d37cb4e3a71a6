/-
# Whole writes and reads over partial ones

A transport takes and delivers bytes in pieces of its own choice.  `Socket_Stream` makes whole
writes and reads of them (`Net_Sockets/socket_stream.cpp`), and the length-prefixed fields of
`socket_stream_writer.h` and `socket_stream_reader.h` are built on these.

* `Sender`, `Receiver` — the two ends, each with what its transport does at every call;
* `writeFull`, `readFull` — the loops over pieces of at most 4096 bytes;
* `writeStringEx`, `readStringEx` — the fields over these loops;
* `strings_roundTrip` — strings come through a transport that takes and delivers some bytes of
  each piece.

`SocketStream` has the same fields over writes and reads that are not cut up; the lemmas here say
that the two agree.
-/
import Mantids.SocketStream

namespace Mantids

namespace SocketStream

open BigEndian

/-! ## The sending end -/

/-- The sending end of a connection, over its transport. -/
structure Sender where
  sent : List UInt8 := []
  /-- How many times the transport was called. -/
  calls : ℕ := 0
  isShutdown : Bool := false
  /-- The result of a call, by its number, for so many bytes: how many of them are taken, or an
  error. -/
  accepts : ℕ → ℕ → ℤ
  accepts_le : ∀ k n, accepts k n ≤ n

namespace Sender

/-- `partialWrite(data, datalen)`. -/
def partialWrite (s : Sender) (data : List UInt8) : ℤ × Sender :=
  if s.isShutdown then (-1, s)
  else if data = [] then (0, s)
  else
    (s.accepts s.calls data.length,
      { s with
        sent := s.sent ++ data.take (s.accepts s.calls data.length).toNat
        calls := s.calls + 1 })

/-- `shutdownSocket()`. -/
def shutdownSocket (s : Sender) : Sender := { s with isShutdown := true }

/-- `writeDeSync()`. -/
def writeDeSync (s : Sender) : Sender := s.shutdownSocket

/-- The loop of `writeFull`, with the data that remains. -/
def writeLoop (data : List UInt8) (s : Sender) : Bool × Sender :=
  if _hnil : data = [] then (true, s)
  else
    let sentBytes := s.partialWrite (data.take 4096)
    if _hsent : sentBytes.1 ≤ 0 then (false, sentBytes.2.shutdownSocket)
    else writeLoop (data.drop sentBytes.1.toNat) sentBytes.2
termination_by data.length
decreasing_by
  have hpos := List.length_pos_iff.mpr _hnil
  change ¬ (s.partialWrite (data.take 4096)).1 ≤ 0 at _hsent
  rw [List.length_drop]
  omega

/-- `writeFull(data, datalen)`; a length has to fit `ssize_t`. -/
def writeFull (s : Sender) (data : List UInt8) : Bool × Sender :=
  if 2 ^ 63 - 1 < data.length then (false, s) else writeLoop data s

/-- `writeU<T>(c)`, for a type of `size` bytes. -/
def writeU (size c : ℕ) (s : Sender) : Bool × Sender :=
  let r := s.writeFull (encode size c)
  if r.1 then r else (false, r.2.writeDeSync)

/-- `writeBlockEx<T>(data, datalen)`: the length goes out without `writeDeSync`. -/
def writeBlockEx (size : ℕ) (data : List UInt8) (s : Sender) : Bool × Sender :=
  let datalen := data.length % 256 ^ size
  let wr := s.writeFull (encode size datalen)
  if !wr.1 then (false, wr.2)
  else if datalen = 0 then (true, wr.2)
  else
    let r := wr.2.writeFull (data.take datalen)
    if r.1 then r else (false, r.2.writeDeSync)

/-- `writeStringEx<T>(str, maxSize)`. -/
def writeStringEx (size : ℕ) (str : List UInt8) (maxSize : ℕ) (s : Sender) : Bool × Sender :=
  if maxSize < str.length then (false, s.writeDeSync) else s.writeBlockEx size str

/-- Strings, one after the other, with the results. -/
def writeStrings (size maxSize : ℕ) : List (List UInt8) → Sender → List Bool × Sender
  | [], s => ([], s)
  | str :: strs, s =>
    let (ok, s) := s.writeStringEx size str maxSize
    let (oks, s) := writeStrings size maxSize strs s
    (ok :: oks, s)

end Sender

/-! ## The receiving end -/

/-- The receiving end of a connection, over its transport. -/
structure Receiver where
  /-- What is going to arrive before the connection ends. -/
  incoming : List UInt8
  calls : ℕ := 0
  isShutdown : Bool := false
  /-- The result of a call, by its number, when so many bytes are asked for and still to come: how
  many of them are delivered, or an error. -/
  delivers : ℕ → ℕ → ℤ
  delivers_le : ∀ k n, delivers k n ≤ n

namespace Receiver

/-- `partialRead(data, datalen)`: the result, the bytes, and the rest.  It waits for bytes; the
result is 0 at the end of the connection. -/
def partialRead (r : Receiver) (datalen : ℕ) : ℤ × List UInt8 × Receiver :=
  if r.isShutdown then (-1, [], r)
  else if datalen = 0 ∨ r.incoming = [] then (0, [], r)
  else
    let n := r.delivers r.calls (min datalen r.incoming.length)
    (n, r.incoming.take n.toNat,
      { r with incoming := r.incoming.drop n.toNat, calls := r.calls + 1 })

theorem partialRead_shorter {r : Receiver} {datalen : ℕ} (h : 0 < (r.partialRead datalen).1) :
    (r.partialRead datalen).2.2.incoming.length < r.incoming.length := by
  unfold partialRead at h ⊢
  split_ifs at h ⊢ with hshut hnil
  · omega
  · omega
  · push Not at hnil
    have hpos := List.length_pos_iff.mpr hnil.2
    dsimp only at h ⊢
    rw [List.length_drop]
    omega

def readDeSync (r : Receiver) : Receiver := { r with isShutdown := true }

/-- The loop of `readFull`, with the bytes that were received: is there no error, the bytes, and the
rest. -/
def readLoop (expectedDataBytesCount : ℕ) (received : List UInt8) (r : Receiver) :
    Bool × List UInt8 × Receiver :=
  if received.length < expectedDataBytesCount then
    let n := r.partialRead (min 4096 (expectedDataBytesCount - received.length))
    if _hpos : 0 < n.1 then readLoop expectedDataBytesCount (received ++ n.2.1) n.2.2
    else (decide (n.1 = 0), received, n.2.2)
  else (true, received, r)
termination_by r.incoming.length
decreasing_by exact partialRead_shorter _hpos

/-- `readFull(data, expectedDataBytesCount, &receivedDataBytesCount)`: the result, the count, the
bytes in the buffer, and the rest. -/
def readFull (r : Receiver) (expectedDataBytesCount : ℕ) : Bool × ℕ × List UInt8 × Receiver :=
  if expectedDataBytesCount = 0 then (true, 0, [], r)
  else
    match readLoop expectedDataBytesCount [] r with
    | (false, received, r) => (false, 0, received, r)
    | (true, received, r) =>
      (decide (expectedDataBytesCount ≤ received.length), received.length, received, r)

/-- `readU<T>(&readOK)`: the number, `readOK`, and the rest. -/
def readU (size : ℕ) (r : Receiver) : ℕ × Bool × Receiver :=
  let (ok, count, received, r) := r.readFull size
  let readOK := ok && decide (count = size)
  (decode (received ++ List.replicate (size - received.length) 0), readOK,
    if readOK then r else r.readDeSync)

/-- `readBlockWAllocEx<T>(&datalen)`. -/
def readBlockWAllocEx (size datalen : ℕ) (r : Receiver) : FieldRead × Receiver :=
  let (expectedBytesCount, readOK, r) := r.readU size
  if readOK then
    if datalen < expectedBytesCount then (.failed, r.readDeSync)
    else if allocated size expectedBytesCount < expectedBytesCount + 1 then (.outOfBounds, r)
    else if expectedBytesCount = 0 then (.read [], r)
    else
      let (ok, count, received, r) := r.readFull expectedBytesCount
      if ok && decide (count = expectedBytesCount) then (.read received, r)
      else (.failed, r.readDeSync)
  else (.failed, r)

/-- `readStringEx<T>(&readOK, maxLength)`. -/
def readStringEx (size maxLength : ℕ) (r : Receiver) : FieldRead × Receiver :=
  r.readBlockWAllocEx size maxLength

/-- So many strings, one after the other. -/
def readStrings (size maxLength : ℕ) : ℕ → Receiver → List FieldRead × Receiver
  | 0, r => ([], r)
  | n + 1, r =>
    let (str, r) := r.readStringEx size maxLength
    let (strs, r) := readStrings size maxLength n r
    (str :: strs, r)

end Receiver

/-! ## Writes that get through -/

namespace Sender

/-- The transport takes some bytes of every piece. -/
def Accepting (s : Sender) : Prop :=
  s.isShutdown = false ∧ ∀ k n, 0 < n → 0 < s.accepts k n

/-- The sender after more bytes were sent, in some calls. -/
def Sent (s s' : Sender) (data : List UInt8) : Prop :=
  s'.sent = s.sent ++ data ∧ s'.Accepting

theorem Sent.trans {s s' s'' : Sender} {d e : List UInt8} (h : Sent s s' d) (h' : Sent s' s'' e) :
    Sent s s'' (d ++ e) :=
  ⟨by rw [h'.1, h.1, List.append_assoc], h'.2⟩

theorem partialWrite_accepting {s : Sender} (h : s.Accepting) (data : List UInt8)
    (hne : data ≠ []) :
    0 < (s.partialWrite data).1 ∧ (s.partialWrite data).1.toNat ≤ data.length ∧
      Sent s (s.partialWrite data).2 (data.take (s.partialWrite data).1.toNat) := by
  have hlen := List.length_pos_iff.mpr hne
  have hpos := h.2 s.calls data.length hlen
  have hle := s.accepts_le s.calls data.length
  unfold partialWrite
  rw [if_neg (by rw [h.1]; exact Bool.false_ne_true), if_neg hne]
  exact ⟨hpos, by omega, rfl, h⟩

theorem writeLoop_accepting (data : List UInt8) (s : Sender) (h : s.Accepting) :
    (writeLoop data s).1 = true ∧ Sent s (writeLoop data s).2 data := by
  induction data, s using writeLoop.induct with
  | case1 s =>
    rw [writeLoop, dif_pos rfl]
    exact ⟨rfl, by rw [List.append_nil], h⟩
  | case2 data s hnil sentBytes hsent =>
    obtain ⟨hpos, -, -⟩ := partialWrite_accepting h
      (data.take 4096) (by rw [ne_eq, List.take_eq_nil_iff]; simp [hnil])
    exact absurd hsent (not_le.mpr hpos)
  | case3 data s hnil sentBytes hsent ih =>
    obtain ⟨-, hle, hfirst⟩ := partialWrite_accepting h
      (data.take 4096) (by rw [ne_eq, List.take_eq_nil_iff]; simp [hnil])
    rw [writeLoop, dif_neg hnil, dif_neg hsent]
    obtain ⟨hok, hrest⟩ := ih hfirst.2
    refine ⟨hok, ?_⟩
    have hboth := hfirst.trans hrest
    -- What was taken of the piece and the rest make up the data.
    rw [List.length_take] at hle
    rwa [List.take_take, min_eq_left (by omega), List.take_append_drop] at hboth

theorem writeFull_accepting {s : Sender} (h : s.Accepting) (data : List UInt8)
    (hlen : data.length < 2 ^ 63) :
    (s.writeFull data).1 = true ∧ Sent s (s.writeFull data).2 data := by
  unfold writeFull
  rw [if_neg (by omega)]
  exact writeLoop_accepting data s h

/-- A string within the limit is on the wire as its block. -/
theorem writeStringEx_accepting {s : Sender} (h : s.Accepting) {size maxSize : ℕ}
    {str : List UInt8} (hsize : size ≤ 7) (hmax : str.length ≤ maxSize) :
    (s.writeStringEx size str maxSize).1 = true ∧
      Sent s (s.writeStringEx size str maxSize).2 (Writer.blockBytes size str) := by
  have hmod : str.length % 256 ^ size < 2 ^ 63 := by
    have hlt : str.length % 256 ^ size < 256 ^ size := Nat.mod_lt _ (by positivity)
    have hpow : 256 ^ size ≤ 256 ^ 7 := Nat.pow_le_pow_right (by decide) hsize
    omega
  obtain ⟨hok, hlength⟩ := writeFull_accepting h
    (encode size (str.length % 256 ^ size)) (by rw [length_encode]; omega)
  unfold writeStringEx
  rw [if_neg (by omega)]
  unfold writeBlockEx
  rw [if_neg (by rw [hok]; decide)]
  by_cases hnil : str.length % 256 ^ size = 0
  · rw [if_pos hnil]
    refine ⟨rfl, ?_⟩
    rw [Writer.blockBytes, hnil, List.take_zero, List.append_nil]
    rwa [hnil] at hlength
  · rw [if_neg hnil]
    obtain ⟨hok', hdata⟩ := writeFull_accepting hlength.2
      (str.take (str.length % 256 ^ size)) (by rw [List.length_take]; omega)
    rw [if_pos hok']
    exact ⟨hok', hlength.trans hdata⟩

theorem writeStrings_accepting (size maxSize : ℕ) (hsize : size ≤ 7) (strs : List (List UInt8))
    (s : Sender) (h : s.Accepting) (hmax : ∀ str ∈ strs, str.length ≤ maxSize) :
    (s.writeStrings size maxSize strs).1 = strs.map (fun _ => true) ∧
      Sent s (s.writeStrings size maxSize strs).2 (strs.flatMap (Writer.blockBytes size)) := by
  induction strs generalizing s with
  | nil => exact ⟨rfl, by rw [List.flatMap_nil, List.append_nil]; rfl, h⟩
  | cons str strs ih =>
    obtain ⟨hok, hfirst⟩ := writeStringEx_accepting h hsize (hmax str List.mem_cons_self)
    obtain ⟨hoks, hrest⟩ := ih _ hfirst.2 fun str hstr => hmax str (List.mem_cons_of_mem _ hstr)
    refine ⟨?_, ?_⟩
    · exact congrArg₂ List.cons hok hoks
    · rw [List.flatMap_cons]
      exact hfirst.trans hrest

end Sender

/-! ## Reads that are delivered -/

namespace Receiver

/-- The transport delivers some bytes whenever there are any to come. -/
def Delivering (r : Receiver) : Prop :=
  r.isShutdown = false ∧ ∀ k n, 0 < n → 0 < r.delivers k n

theorem partialRead_delivering {r : Receiver} (h : r.Delivering) {datalen : ℕ} (hlen : 0 < datalen)
    (hne : r.incoming ≠ []) :
    0 < (r.partialRead datalen).1 ∧
      (r.partialRead datalen).1.toNat ≤ min datalen r.incoming.length ∧
      (r.partialRead datalen).2.1 = r.incoming.take (r.partialRead datalen).1.toNat ∧
      (r.partialRead datalen).2.2.incoming = r.incoming.drop (r.partialRead datalen).1.toNat ∧
      (r.partialRead datalen).2.2.Delivering := by
  have hin := List.length_pos_iff.mpr hne
  have hpos := h.2 r.calls (min datalen r.incoming.length) (by omega)
  have hle := r.delivers_le r.calls (min datalen r.incoming.length)
  have hgo : ¬ (datalen = 0 ∨ r.incoming = []) := by
    rintro (hzero | hnil)
    · omega
    · exact hne hnil
  unfold partialRead
  rw [if_neg (by rw [h.1]; exact Bool.false_ne_true), if_neg hgo]
  exact ⟨hpos, by dsimp only; omega, rfl, rfl, h⟩

/-- The loop collects what was asked for, or everything there is. -/
theorem readLoop_delivering (n : ℕ) (received : List UInt8) (r : Receiver) (h : r.Delivering)
    (hle : received.length ≤ n) :
    (readLoop n received r).1 = true ∧
      (readLoop n received r).2.1 = received ++ r.incoming.take (n - received.length) ∧
      (readLoop n received r).2.2.incoming = r.incoming.drop (n - received.length) ∧
      (readLoop n received r).2.2.Delivering := by
  induction received, r using readLoop.induct n with
  | case1 received r hlt step hpos ih =>
    have hne : r.incoming ≠ [] := by
      intro hnil
      have hshort := partialRead_shorter hpos
      rw [hnil] at hshort
      exact absurd hshort (Nat.not_lt_zero _)
    obtain ⟨-, hcount, hbytes, hrest, hstays⟩ : 0 < step.1 ∧
        step.1.toNat ≤ min (min 4096 (n - received.length)) r.incoming.length ∧
        step.2.1 = r.incoming.take step.1.toNat ∧
        step.2.2.incoming = r.incoming.drop step.1.toNat ∧ step.2.2.Delivering :=
      partialRead_delivering h (by omega) hne
    have htaken : step.2.1.length = step.1.toNat := by
      rw [hbytes, List.length_take]
      omega
    have hremain : n - (received ++ step.2.1).length = n - received.length - step.1.toNat := by
      rw [List.length_append, htaken]
      omega
    rw [readLoop, if_pos hlt, dif_pos hpos]
    obtain ⟨hok, hall, hleft, hdel⟩ := ih hstays (by rw [List.length_append]; omega)
    rw [hremain] at hall hleft
    refine ⟨hok, ?_, ?_, hdel⟩
    · -- What this call delivered and what the others deliver are one piece.
      have hsplit : r.incoming.take (n - received.length)
          = step.2.1 ++ step.2.2.incoming.take (n - received.length - step.1.toNat) := by
        rw [hrest, hbytes, ← List.take_add, Nat.add_sub_of_le (by omega)]
      exact hall.trans (by rw [hsplit, List.append_assoc])
    · refine hleft.trans ?_
      rw [hrest, List.drop_drop, Nat.add_sub_of_le (by omega)]
  | case2 received r hlt step hpos =>
    have hnil : r.incoming = [] := by
      by_contra hne
      exact hpos (partialRead_delivering h (by omega) hne).1
    have hend : step = (0, [], r) := by
      show r.partialRead _ = _
      unfold partialRead
      rw [if_neg (by rw [h.1]; exact Bool.false_ne_true), if_pos (.inr hnil)]
    rw [readLoop, if_pos hlt, dif_neg hpos]
    show decide (step.1 = 0) = true ∧ received = _ ∧ step.2.2.incoming = _ ∧ step.2.2.Delivering
    rw [hend, hnil, List.take_nil, List.drop_nil, List.append_nil]
    exact ⟨rfl, rfl, rfl, h⟩
  | case3 received r hge =>
    rw [readLoop, if_neg hge, show n - received.length = 0 from by omega]
    exact ⟨rfl, by rw [List.take_zero, List.append_nil], rfl, h⟩

/-- A whole read takes what was asked for, or fails at the end of the connection. -/
theorem readFull_delivering {r : Receiver} (h : r.Delivering) (n : ℕ) :
    ∃ r' : Receiver, r'.Delivering ∧ r'.incoming = r.incoming.drop n ∧
      r.readFull n = (decide (n ≤ r.incoming.length), min n r.incoming.length,
        r.incoming.take n, r') := by
  unfold readFull
  by_cases hzero : n = 0
  · refine ⟨r, h, ?_, ?_⟩
    · rw [hzero, List.drop_zero]
    · rw [if_pos hzero, hzero, List.take_zero, Nat.zero_min]
      rfl
  · obtain ⟨hok, hall, hleft, hdel⟩ := readLoop_delivering n [] r h (Nat.zero_le n)
    obtain ⟨ok, received, r', hloop⟩ : ∃ ok received r', readLoop n [] r = (ok, received, r') :=
      ⟨_, _, _, rfl⟩
    rw [hloop] at hok hall hleft hdel
    dsimp only at hok hall hleft hdel
    rw [List.nil_append, List.length_nil, Nat.sub_zero] at hall
    rw [List.length_nil, Nat.sub_zero] at hleft
    refine ⟨r', hdel, hleft, ?_⟩
    rw [if_neg hzero, hloop, hok, hall]
    dsimp only
    rw [List.length_take]
    congr 1
    rw [decide_eq_decide]
    omega

/-- A number is read as from a stream that is not cut up. -/
theorem readU_delivering {r : Receiver} (h : r.Delivering) (size : ℕ) :
    ∃ r' : Receiver, r'.incoming = (SocketStream.readU size r.incoming).2.2 ∧
      ((SocketStream.readU size r.incoming).2.1 = true → r'.Delivering) ∧
      r.readU size = ((SocketStream.readU size r.incoming).1,
        (SocketStream.readU size r.incoming).2.1, r') := by
  obtain ⟨r', hdel, hleft, hread⟩ := readFull_delivering h size
  have hok : (decide (size ≤ r.incoming.length) && decide (min size r.incoming.length = size))
      = decide (size ≤ r.incoming.length) := by
    by_cases hle : size ≤ r.incoming.length
    · simp [hle]
    · simp [hle]
  refine ⟨if decide (size ≤ r.incoming.length) = true then r' else r'.readDeSync, ?_, ?_, ?_⟩
  · split
    · exact hleft
    · exact hleft
  · intro htrue
    rw [if_pos (show decide (size ≤ r.incoming.length) = true from htrue)]
    exact hdel
  · unfold readU
    rw [hread]
    dsimp only
    rw [hok, List.length_take, show size - min size r.incoming.length = size - r.incoming.length
      from by omega]
    rfl

/-- A field is read as from a stream that is not cut up. -/
theorem readStringEx_delivering {r : Receiver} (h : r.Delivering) {size maxLength : ℕ}
    {str rest : List UInt8}
    (hread : SocketStream.readStringEx size maxLength r.incoming = (.read str, rest)) :
    ∃ r' : Receiver, r'.Delivering ∧ r'.incoming = rest ∧
      r.readStringEx size maxLength = (.read str, r') := by
  obtain ⟨r₁, hrest, hdel, hnumber⟩ := readU_delivering h size
  obtain ⟨expected, readOK, s₁, hu⟩ : ∃ expected readOK s₁,
      SocketStream.readU size r.incoming = (expected, readOK, s₁) := ⟨_, _, _, rfl⟩
  rw [hu] at hrest hdel hnumber
  unfold SocketStream.readStringEx SocketStream.readBlockWAllocEx at hread
  rw [hu] at hread
  unfold readStringEx readBlockWAllocEx
  rw [hnumber]
  dsimp only at hrest hdel hread ⊢
  cases readOK with
  | false =>
    simp only [Bool.false_eq_true, if_false] at hread
    cases hread
  | true =>
    simp only [if_true] at hread ⊢
    by_cases hover : maxLength < expected
    · rw [if_pos hover] at hread
      cases hread
    rw [if_neg hover] at hread ⊢
    by_cases hwraps : allocated size expected < expected + 1
    · rw [if_pos hwraps] at hread
      cases hread
    rw [if_neg hwraps] at hread ⊢
    by_cases hzero : expected = 0
    · rw [if_pos hzero] at hread ⊢
      cases hread
      exact ⟨r₁, hdel rfl, hrest, rfl⟩
    rw [if_neg hzero] at hread ⊢
    by_cases hle : expected ≤ s₁.length
    · rw [if_pos hle] at hread
      cases hread
      obtain ⟨r₂, hdel₂, hrest₂, hdata⟩ := readFull_delivering (hdel rfl) expected
      rw [hrest] at hrest₂ hdata
      refine ⟨r₂, hdel₂, hrest₂, ?_⟩
      rw [hdata]
      dsimp only
      rw [decide_eq_true hle, min_eq_left hle, decide_eq_true rfl]
      rfl
    · rw [if_neg hle] at hread
      cases hread

/-- A block on the wire is read as one, and no more than the block. -/
theorem readStringEx_blockBytes_delivering {r : Receiver} (h : r.Delivering) {size maxLength : ℕ}
    {str : List UInt8} (rest : List UInt8) (hfits : str.length + 1 < 256 ^ size)
    (hmax : str.length ≤ maxLength) (hin : r.incoming = Writer.blockBytes size str ++ rest) :
    ∃ r' : Receiver, r'.Delivering ∧ r'.incoming = rest ∧
      r.readStringEx size maxLength = (.read str, r') := by
  apply readStringEx_delivering h
  rw [hin]
  exact readStringEx_blockBytes (by omega) (allocated_of_lt hfits) hmax rest

theorem readStrings_delivering (size maxLength : ℕ) (strs : List (List UInt8)) (r : Receiver)
    (h : r.Delivering) (rest : List UInt8)
    (hfits : ∀ str ∈ strs, str.length + 1 < 256 ^ size ∧ str.length ≤ maxLength)
    (hin : r.incoming = strs.flatMap (Writer.blockBytes size) ++ rest) :
    (r.readStrings size maxLength strs.length).1 = strs.map .read ∧
      (r.readStrings size maxLength strs.length).2.incoming = rest := by
  induction strs generalizing r with
  | nil => exact ⟨rfl, hin⟩
  | cons str strs ih =>
    obtain ⟨hlength, hmax⟩ := hfits str List.mem_cons_self
    obtain ⟨r', hdel, hrest, hread⟩ := readStringEx_blockBytes_delivering h
      (strs.flatMap (Writer.blockBytes size) ++ rest) hlength hmax
      (by rw [hin, List.flatMap_cons, List.append_assoc])
    obtain ⟨hstrs, hleft⟩ := ih r' hdel (fun str hstr => hfits str (List.mem_cons_of_mem _ hstr))
      hrest
    rw [List.length_cons, readStrings, hread]
    exact ⟨congrArg (FieldRead.read str :: ·) hstrs, hleft⟩

end Receiver

/-! ## The round trip -/

/-- **Round trip of strings.**  Over any transport that takes and delivers some bytes of each piece,
strings below the limits are written without an error and read back without an error, and each read
takes from the wire what the write of its own string put there. -/
theorem strings_roundTrip (size : ℕ) (hsize : size ∈ [1, 2, 4]) (maxSize maxLength : ℕ)
    (strs : List (List UInt8))
    (hstrs : ∀ str ∈ strs,
      str.length < 256 ^ size - 1 ∧ str.length ≤ maxSize ∧ str.length ≤ maxLength)
    (s : Sender) (hs : s.Accepting) (r : Receiver) (hr : r.Delivering) (rest : List UInt8)
    (hwire : s.sent ++ r.incoming = (s.writeStrings size maxSize strs).2.sent ++ rest) :
    (s.writeStrings size maxSize strs).1 = strs.map (fun _ => true) ∧
      (r.readStrings size maxLength strs.length).1 = strs.map .read ∧
      ∀ k ≤ strs.length,
        (s.writeStrings size maxSize (strs.take k)).2.sent
            ++ (r.readStrings size maxLength k).2.incoming
          = (s.writeStrings size maxSize strs).2.sent ++ rest := by
  have hsmall : size ≤ 7 := by
    simp only [List.mem_cons, List.not_mem_nil, or_false] at hsize
    omega
  have hwrite := fun l (hl : ∀ str ∈ l, str.length ≤ maxSize) =>
    s.writeStrings_accepting size maxSize hsmall l hs hl
  have hfits : ∀ str ∈ strs, str.length + 1 < 256 ^ size ∧ str.length ≤ maxLength := by
    intro str hstr
    obtain ⟨hlength, -, hmax⟩ := hstrs str hstr
    exact ⟨by omega, hmax⟩
  obtain ⟨hok, hsent⟩ := hwrite strs fun str hstr => (hstrs str hstr).2.1
  have hin : r.incoming = strs.flatMap (Writer.blockBytes size) ++ rest := by
    rw [hsent.1, List.append_assoc] at hwire
    exact List.append_cancel_left hwire
  refine ⟨hok, (Receiver.readStrings_delivering size maxLength strs r hr rest hfits hin).1, ?_⟩
  intro k hk
  -- The first `k` strings are on the wire in front of the others.
  have hsplit : r.incoming = (strs.take k).flatMap (Writer.blockBytes size) ++
      ((strs.drop k).flatMap (Writer.blockBytes size) ++ rest) := by
    rw [hin, ← List.append_assoc, ← List.flatMap_append, List.take_append_drop]
  have hfirst := Receiver.readStrings_delivering size maxLength (strs.take k) r hr _
    (fun str hstr => hfits str (List.mem_of_mem_take hstr)) hsplit
  rw [List.length_take, min_eq_left hk] at hfirst
  obtain ⟨-, hsent'⟩ := hwrite (strs.take k) fun str hstr =>
    (hstrs str (List.mem_of_mem_take hstr)).2.1
  rw [hfirst.2, hsent'.1, hsent.1, ← List.append_assoc (s.sent ++ _), List.append_assoc s.sent,
    ← List.flatMap_append, List.take_append_drop]

/-- A transport that takes one byte at a time. -/
def sampleSender : Sender where
  accepts _ n := min 1 n
  accepts_le _ _ := by omega

/-- A transport that delivers at most two bytes at a time, with two strings and a byte more. -/
def sampleReceiver : Receiver where
  incoming := [2, 104, 105, 0, 7]
  delivers _ n := min 2 n
  delivers_le _ _ := by omega

theorem strings_roundTrip_two :
    (sampleSender.writeStrings 1 254 [[104, 105], []]).1 = [true, true] ∧
      (sampleReceiver.readStrings 1 254 2).1 = [.read [104, 105], .read []] := by
  have hs : sampleSender.Accepting := ⟨rfl, fun _ n hn => by
    show 0 < min (1 : ℤ) n
    omega⟩
  have hr : sampleReceiver.Delivering := ⟨rfl, fun _ n hn => by
    show 0 < min (2 : ℤ) n
    omega⟩
  have hsent := (sampleSender.writeStrings_accepting 1 254 (by decide) [[104, 105], []] hs
    (by decide)).2.1
  obtain ⟨hwrite, hread, -⟩ := strings_roundTrip 1 (by decide) 254 254 [[104, 105], []] (by decide)
    sampleSender hs sampleReceiver hr [7] (by rw [hsent]; rfl)
  exact ⟨hwrite, hread⟩

end SocketStream

end Mantids
