/-
# Length-prefixed fields of a socket stream

`Socket_Stream_Writer` and `Socket_Stream_Reader` (`Net_Sockets/socket_stream_writer.h`,
`socket_stream_reader.h`) put numbers, blocks and strings on a connection.  A block goes out
as its length, in as many bytes as the length type has, and then its bytes.

* `Writer` — the sending side: what was sent, and which writes fail;
* `writeU`, `writeBlockEx`, `writeStringEx` — the writers, by the size of the length type;
* `readU`, `readBlockWAllocEx`, `readStringEx` — the readers, on the bytes that arrive before
  the connection ends.

The length limit of `readBlockWAllocEx` is an in/out variable: on the way out it is the
length that was read.  The buffer of a block has one byte more than the length, computed in the
length type.
-/
import Mathlib
import Mantids.Lib.BigEndian

namespace Mantids

namespace SocketStream

open BigEndian

/-! ## The sending side -/

/-- The sending side of a connection. -/
structure Writer where
  sent : List UInt8 := []
  /-- How many times `writeFull` was called. -/
  writes : ℕ := 0
  /-- The writes that fail, and how many of their bytes leave all the same. -/
  fails : ℕ → Option ℕ := fun _ => none

namespace Writer

/-- `writeFull(data, datalen)`. -/
def writeFull (w : Writer) (data : List UInt8) : Bool × Writer :=
  match w.fails w.writes with
  | none => (true, { w with sent := w.sent ++ data, writes := w.writes + 1 })
  | some n => (false, { w with sent := w.sent ++ data.take n, writes := w.writes + 1 })

/-- `a && b` over writes: the second one is made when the first succeeded. -/
def andThen (r : Bool × Writer) (next : Writer → Bool × Writer) : Bool × Writer :=
  if r.1 then next r.2 else r

/-- `writeU<T>(c)`, for a type of `size` bytes. -/
def writeU (size : ℕ) (c : ℕ) (w : Writer) : Bool × Writer := w.writeFull (encode size c)

/-- `writeBlockEx<T>(data, datalen)`: the length is converted to `T`. -/
def writeBlockEx (size : ℕ) (data : List UInt8) (w : Writer) : Bool × Writer :=
  let datalen := data.length % 256 ^ size
  andThen (w.writeU size datalen) fun w =>
    if datalen = 0 then (true, w) else w.writeFull (data.take datalen)

/-- The default limit of `writeStringEx` and `readStringEx`, and of a reader without one. -/
def defaultMax (size : ℕ) : ℕ := 256 ^ size - 1 - 1

/-- `writeStringEx<T>(str, maxSize)`. -/
def writeStringEx (size : ℕ) (str : List UInt8) (maxSize : ℕ) (w : Writer) : Bool × Writer :=
  if maxSize < str.length then (false, w) else w.writeBlockEx size str

/-! ## Which writes get through -/

/-- None of the next `n` writes fails. -/
def Working (w : Writer) (n : ℕ) : Prop := ∀ k < n, w.fails (w.writes + k) = none

/-- The writer after some more bytes, sent in `n` writes. -/
def push (w : Writer) (data : List UInt8) (n : ℕ) : Writer :=
  { w with sent := w.sent ++ data, writes := w.writes + n }

@[simp] theorem push_push (w : Writer) (d e : List UInt8) (m n : ℕ) :
    (w.push d m).push e n = w.push (d ++ e) (m + n) := by
  simp [Writer.push, Nat.add_assoc]

theorem working_add (w : Writer) (d : List UInt8) (m n : ℕ) :
    w.Working (m + n) ↔ w.Working m ∧ (w.push d m).Working n := by
  constructor
  · intro h
    refine ⟨fun k hk => h k (by omega), fun k hk => ?_⟩
    show w.fails (w.writes + m + k) = none
    rw [Nat.add_assoc]
    exact h (m + k) (by omega)
  · rintro ⟨hm, hn⟩ k hk
    by_cases hlt : k < m
    · exact hm k hlt
    · have hrest : w.fails (w.writes + m + (k - m)) = none := hn (k - m) (by omega)
      rwa [show w.writes + m + (k - m) = w.writes + k from by omega] at hrest

/-- An operation of `n` writes: it sends these bytes if all of the writes get through, and
reports a failure otherwise. -/
def Sends (op : Writer → Bool × Writer) (data : List UInt8) (n : ℕ) : Prop :=
  ∀ w : Writer, (w.Working n → op w = (true, w.push data n)) ∧ (¬ w.Working n → (op w).1 = false)

/-- The result of an operation tells whether its writes got through. -/
theorem Sends.fst_iff {op : Writer → Bool × Writer} {data : List UInt8} {n : ℕ}
    (h : Sends op data n) (w : Writer) : (op w).1 = true ↔ w.Working n := by
  constructor
  · intro htrue
    by_contra hnot
    rw [(h w).2 hnot] at htrue
    cases htrue
  · intro hworking
    rw [(h w).1 hworking]

/-- Operations that send, one after the other. -/
theorem Sends.andThen {op next : Writer → Bool × Writer} {d e : List UInt8} {m n : ℕ}
    (hop : Sends op d m) (hnext : Sends next e n) :
    Sends (fun w => Writer.andThen (op w) next) (d ++ e) (m + n) := by
  intro w
  show (_ → Writer.andThen (op w) next = _) ∧ (_ → (Writer.andThen (op w) next).1 = false)
  constructor
  · intro hworking
    obtain ⟨hm, hn⟩ := (working_add w d m n).mp hworking
    rw [(hop w).1 hm, Writer.andThen, if_pos rfl, (hnext _).1 hn, push_push]
  · intro hfails
    by_cases hm : w.Working m
    · have hn : ¬ (w.push d m).Working n := fun hn => hfails ((working_add w d m n).mpr ⟨hm, hn⟩)
      rw [(hop w).1 hm, Writer.andThen, if_pos rfl]
      exact (hnext _).2 hn
    · have hfalse := (hop w).2 hm
      rw [Writer.andThen, if_neg (by rw [hfalse]; exact Bool.false_ne_true)]
      exact hfalse

/-- Nothing to write. -/
theorem sends_nothing : Sends (fun w => (true, w)) [] 0 := by
  intro w
  refine ⟨fun _ => ?_, fun h => absurd (fun k hk => absurd hk (Nat.not_lt_zero k)) h⟩
  simp [Writer.push]

theorem sends_writeFull (data : List UInt8) : Sends (fun w => w.writeFull data) data 1 := by
  intro w
  have hone : w.Working 1 ↔ w.fails w.writes = none := by
    constructor
    · intro h
      exact h 0 Nat.one_pos
    · intro h k hk
      rw [Nat.lt_one_iff.mp hk]
      exact h
  show (_ → w.writeFull data = _) ∧ (_ → (w.writeFull data).1 = false)
  unfold Writer.writeFull
  rw [hone]
  cases w.fails w.writes with
  | none => exact ⟨fun _ => rfl, fun h => absurd rfl h⟩
  | some n => exact ⟨fun h => absurd h (Option.some_ne_none n), fun _ => rfl⟩

theorem sends_writeU (size c : ℕ) : Sends (fun w => w.writeU size c) (encode size c) 1 :=
  sends_writeFull _

/-- The bytes of a block on the wire. -/
def blockBytes (size : ℕ) (data : List UInt8) : List UInt8 :=
  encode size (data.length % 256 ^ size) ++ data.take (data.length % 256 ^ size)

/-- The writes of a block: none for the bytes when there are none. -/
def blockWrites (size : ℕ) (data : List UInt8) : ℕ :=
  if data.length % 256 ^ size = 0 then 1 else 2

/-- A block whose length fits is on the wire as a whole. -/
theorem blockBytes_of_fits {size : ℕ} {data : List UInt8} (hfits : data.length < 256 ^ size) :
    blockBytes size data = encode size data.length ++ data := by
  rw [blockBytes, Nat.mod_eq_of_lt hfits, List.take_length]

theorem sends_writeBlockEx (size : ℕ) (data : List UInt8) :
    Sends (fun w => w.writeBlockEx size data) (blockBytes size data) (blockWrites size data) := by
  simp only [Writer.writeBlockEx, blockWrites]
  by_cases hnil : data.length % 256 ^ size = 0
  · simp only [if_pos hnil]
    rw [blockBytes, hnil, List.take_zero]
    exact (sends_writeU size 0).andThen sends_nothing
  · simp only [if_neg hnil]
    exact (sends_writeU size _).andThen (sends_writeFull _)

theorem sends_writeStringEx (size : ℕ) {maxSize : ℕ} {str : List UInt8}
    (hmax : str.length ≤ maxSize) :
    Sends (fun w => w.writeStringEx size str maxSize) (blockBytes size str)
      (blockWrites size str) := by
  simp only [Writer.writeStringEx, if_neg (Nat.not_lt.mpr hmax)]
  exact sends_writeBlockEx size str

/-- A string over the limit is not sent. -/
theorem writeStringEx_over {size maxSize : ℕ} {str : List UInt8} (hmax : maxSize < str.length)
    (w : Writer) : (w.writeStringEx size str maxSize).1 = false := by
  rw [Writer.writeStringEx, if_pos hmax]

/-- A failure stays a failure. -/
theorem andThen_of_false {r : Bool × Writer} (h : r.1 = false) (next : Writer → Bool × Writer) :
    (Writer.andThen r next).1 = false := by
  rw [Writer.andThen, if_neg (by rw [h]; exact Bool.false_ne_true)]
  exact h

/-- A failure of the second operation is a failure. -/
theorem andThen_of_next_false {next : Writer → Bool × Writer} (h : ∀ w, (next w).1 = false)
    (r : Bool × Writer) : (Writer.andThen r next).1 = false := by
  rw [Writer.andThen]
  split_ifs with hr
  · exact h r.2
  · exact Bool.eq_false_iff.mpr hr

end Writer

/-! ## The receiving side -/

/-- `readU<T>(&readOK)`: the number, `readOK`, and what arrives after it.  A number that is cut
off has zeros for the missing bytes. -/
def readU (size : ℕ) (s : List UInt8) : ℕ × Bool × List UInt8 :=
  (decode (s.take size ++ List.replicate (size - s.length) 0), decide (size ≤ s.length),
    s.drop size)

/-- What a read of a field leads to.  Out of bounds, the data is written behind its buffer. -/
inductive FieldRead where
  | failed
  | outOfBounds
  | read (data : List UInt8)
deriving DecidableEq

/-- The size of `new char[expectedBytesCount + 1]`: a type shorter than `int` is promoted, the
others wrap around. -/
def allocated (size expectedBytesCount : ℕ) : ℕ := (expectedBytesCount + 1) % 256 ^ max size 4

/-- `readBlockWAllocEx<T>(&datalen)`: the block, the new `datalen`, and what arrives after. -/
def readBlockWAllocEx (size datalen : ℕ) (s : List UInt8) : FieldRead × ℕ × List UInt8 :=
  let (expectedBytesCount, readOK, s) := readU size s
  if readOK then
    if datalen < expectedBytesCount then (.failed, 0, s)
    else if allocated size expectedBytesCount < expectedBytesCount + 1 then (.outOfBounds, 0, s)
    else if expectedBytesCount = 0 then (.read [], 0, s)
    else if expectedBytesCount ≤ s.length then
      (.read (s.take expectedBytesCount), expectedBytesCount, s.drop expectedBytesCount)
    else (.failed, 0, [])
  else (.failed, 0, s)

/-- `readStringEx<T>(&ok, maxLength)`: `ok` is set to false when it fails. -/
def readStringEx (size maxLength : ℕ) (s : List UInt8) : FieldRead × List UInt8 :=
  let (data, _, s) := readBlockWAllocEx size maxLength s
  (data, s)

/-- A number that was read fits its type. -/
theorem readU_lt (size : ℕ) (s : List UInt8) : (readU size s).1 < 256 ^ size := by
  have hlen : (s.take size ++ List.replicate (size - s.length) 0).length = size := by
    rw [List.length_append, List.length_take, List.length_replicate]
    omega
  have h := decode_lt (s.take size ++ List.replicate (size - s.length) 0)
  rwa [hlen] at h

/-- A number that was written is read back. -/
theorem readU_encode {size n : ℕ} (h : n < 256 ^ size) (rest : List UInt8) :
    readU size (encode size n ++ rest) = (n, true, rest) := by
  have htake : (encode size n ++ rest).take size = encode size n :=
    List.take_left' (length_encode size n)
  have hdrop : (encode size n ++ rest).drop size = rest :=
    List.drop_left' (length_encode size n)
  have hle : size ≤ (encode size n ++ rest).length := by
    rw [List.length_append, length_encode]
    omega
  rw [readU, htake, hdrop, Nat.sub_eq_zero_of_le hle, List.replicate_zero, List.append_nil,
    decode_encode h, decide_eq_true hle]

/-! ## The buffer of a block -/

/-- Nothing wraps around below the maximum of the type in which the size is computed. -/
theorem allocated_eq_of_lt {size n : ℕ} (h : n + 1 < 256 ^ max size 4) :
    allocated size n = n + 1 := by
  rw [allocated]
  exact Nat.mod_eq_of_lt h

/-- The maximum of a wide type wraps around. -/
theorem allocated_wraps {size : ℕ} (hwide : 4 ≤ size) : allocated size (256 ^ size - 1) = 0 := by
  have hpos : 0 < 256 ^ size := by positivity
  rw [allocated, max_eq_left hwide, Nat.sub_add_cancel hpos, Nat.mod_self]

/-- A length of the type `T` gets its terminator, unless it is the maximum of a wide type. -/
theorem allocated_fits_iff {size n : ℕ} (h : n < 256 ^ size) :
    n + 1 ≤ allocated size n ↔ ¬ (4 ≤ size ∧ n = 256 ^ size - 1) := by
  constructor
  · rintro hfits ⟨hwide, hmax⟩
    rw [hmax, allocated_wraps hwide] at hfits
    exact absurd hfits (Nat.not_succ_le_zero _)
  · intro hsmall
    apply le_of_eq
    symm
    apply allocated_eq_of_lt
    rcases lt_or_ge size 4 with hnarrow | hwide
    · have hpow : 256 ^ size ≤ 256 ^ 3 := Nat.pow_le_pow_right (by decide) (by omega)
      rw [max_eq_right (by omega)]
      omega
    · have hne : n ≠ 256 ^ size - 1 := fun heq => hsmall ⟨hwide, heq⟩
      rw [max_eq_left hwide]
      omega

/-- A length below the maximum of its type has room for the terminator. -/
theorem allocated_of_lt {size n : ℕ} (h : n + 1 < 256 ^ size) : allocated size n = n + 1 :=
  allocated_eq_of_lt (h.trans_le (Nat.pow_le_pow_right (by decide) (le_max_left _ _)))

/-- A block that was written is read back when the limit allows it and its buffer has room, and the
limit is then its length. -/
theorem readBlockWAllocEx_blockBytes {size datalen : ℕ} {data : List UInt8}
    (hfits : data.length < 256 ^ size) (hroom : allocated size data.length = data.length + 1)
    (hmax : data.length ≤ datalen) (rest : List UInt8) :
    readBlockWAllocEx size datalen (Writer.blockBytes size data ++ rest)
      = (.read data, data.length, rest) := by
  rw [readBlockWAllocEx, Writer.blockBytes_of_fits hfits, List.append_assoc, readU_encode hfits]
  simp only [if_true, if_neg (Nat.not_lt.mpr hmax), hroom, if_neg (lt_irrefl _)]
  by_cases hnil : data.length = 0
  · have hdata : data = [] := List.length_eq_zero_iff.mp hnil
    subst hdata
    rfl
  · have hle : data.length ≤ (data ++ rest).length := by
      rw [List.length_append]
      omega
    rw [if_neg hnil, if_pos hle, List.take_left, List.drop_left]

/-- A block over the limit is refused. -/
theorem readBlockWAllocEx_over {size datalen : ℕ} {data : List UInt8}
    (hfits : data.length < 256 ^ size) (hmax : datalen < data.length) (rest : List UInt8) :
    (readBlockWAllocEx size datalen (Writer.blockBytes size data ++ rest)).1 = .failed := by
  rw [readBlockWAllocEx, Writer.blockBytes_of_fits hfits, List.append_assoc, readU_encode hfits]
  simp only [if_true, if_pos hmax]

/-- A block within the limit whose buffer has no room is written behind it. -/
theorem readBlockWAllocEx_wraps {size datalen : ℕ} {data : List UInt8}
    (hfits : data.length < 256 ^ size) (hroom : allocated size data.length < data.length + 1)
    (hmax : data.length ≤ datalen) (rest : List UInt8) :
    (readBlockWAllocEx size datalen (Writer.blockBytes size data ++ rest)).1 = .outOfBounds := by
  rw [readBlockWAllocEx, Writer.blockBytes_of_fits hfits, List.append_assoc, readU_encode hfits]
  simp only [if_true, if_neg (Nat.not_lt.mpr hmax), if_pos hroom]

/-- What is read of a block is the block, and nothing behind it. -/
theorem eq_of_readBlockWAllocEx {size datalen maxAlloc : ℕ} {data data' t rest : List UInt8}
    (hfits : data.length < 256 ^ size)
    (h : readBlockWAllocEx size datalen (Writer.blockBytes size data ++ t)
      = (.read data', maxAlloc, rest)) :
    data' = data ∧ maxAlloc = data.length ∧ rest = t := by
  have hmax : data.length ≤ datalen := by
    by_contra hover
    have hfailed := readBlockWAllocEx_over hfits (Nat.not_le.mp hover) t
    rw [h] at hfailed
    cases hfailed
  have hroom : allocated size data.length = data.length + 1 := by
    by_contra hne
    have hle : allocated size data.length ≤ data.length + 1 := Nat.mod_le _ _
    have hwraps := readBlockWAllocEx_wraps hfits (lt_of_le_of_ne hle hne) hmax t
    rw [h] at hwraps
    cases hwraps
  rw [readBlockWAllocEx_blockBytes hfits hroom hmax] at h
  cases h
  exact ⟨rfl, rfl, rfl⟩

theorem readStringEx_blockBytes {size maxLength : ℕ} {str : List UInt8}
    (hfits : str.length < 256 ^ size) (hroom : allocated size str.length = str.length + 1)
    (hmax : str.length ≤ maxLength) (rest : List UInt8) :
    readStringEx size maxLength (Writer.blockBytes size str ++ rest) = (.read str, rest) := by
  rw [readStringEx, readBlockWAllocEx_blockBytes hfits hroom hmax]

end SocketStream

end Mantids
