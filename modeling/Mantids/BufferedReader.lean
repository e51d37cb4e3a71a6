/-
# Lines through a buffer of fixed size

A `BufferedReader` (`Net_Sockets/streams_bufferedreader.cpp`) cuts the bytes that arrive on a stream
at a delimiter.  Its constructor allocates `bufferSize` bytes and leaves `m_maxBufferSize`, the size
up to which the buffer is filled, as it was in memory.

* `Peer` — the stream, which delivers its bytes in any pieces and is closed behind them;
* `BufferedReader` — the reader; `bufferedReadUntil`, over a string or over memory of the caller;
* `lines` — the pieces of a stream that fit the buffer;
* `readLoop_spec`, `run_spec` — what a call and a run of calls come to;
* `exists_negative_of_run` — what the calls behind the lines wait for;
* `splits_iff` — when every call returns and the strings are the lines.
-/
import Mathlib.Data.List.Basic
import Mathlib.Data.List.ReduceOption
import Mathlib.Data.List.TakeWhile
import Mathlib.Data.UInt

namespace Mantids

namespace BufferedReader

/-! ## The stream -/

/-- How bytes are delivered: how many of the bytes that are wanted and there come with a call, by
its number. -/
structure Delivery where
  count : ℕ → ℕ → ℕ
  count_pos : ∀ k n, 0 < n → 0 < count k n
  count_le : ∀ k n, count k n ≤ n

/-- Everything at once. -/
def Delivery.whole : Delivery := ⟨fun _ n => n, fun _ _ h => h, fun _ _ => le_rfl⟩

/-- A stream that is closed behind its last byte. -/
structure Peer where
  incoming : List UInt8
  calls : ℕ := 0
  delivery : Delivery
  /-- What a call returns behind the last byte, by its number. -/
  closing : ℕ → ℤ

/-- `partialRead(data, datalen)`: the result, the bytes, and the stream behind them. -/
def Peer.partialRead (p : Peer) (datalen : ℕ) : ℤ × List UInt8 × Peer :=
  if p.incoming = [] then (p.closing p.calls, [], { p with calls := p.calls + 1 })
  else
    let n := p.delivery.count p.calls (min datalen p.incoming.length)
    (n, p.incoming.take n, { p with incoming := p.incoming.drop n, calls := p.calls + 1 })

/-! ## The reader -/

/-- `eStreamBufferReadErrors`. -/
inductive ReadError where
  | ok
  | full
  | notFound
  | disconnected
  | maxSizeExceed
deriving DecidableEq

/-- What a call returns, and the bytes that it has copied to the caller. -/
structure Answer where
  code : ReadError
  copied : Option (List UInt8)
deriving DecidableEq

/-- A `BufferedReader` with its stream. -/
structure Reader where
  stream : Peer
  maxBufferSize : ℕ
  /-- The first `m_currentBufferSize` bytes of `m_buffer`. -/
  buffer : List UInt8 := []

/-- `displaceAndCopy(str, dlen)`. -/
def displaceAndCopyStr (dlen : ℕ) (b : Reader) : Answer × Reader :=
  let buffer := b.buffer.set (dlen - 1) 0
  (⟨.ok, some (buffer.take dlen)⟩, { b with buffer := buffer.drop dlen })

/-- `displaceAndCopy(data, len, dlen)`. -/
def displaceAndCopyData (len dlen : ℕ) (b : Reader) : Answer × Reader :=
  if len < dlen then (⟨.maxSizeExceed, none⟩, b)
  else
    let buffer := b.buffer.set (dlen - 1) 0
    (⟨.ok, some (buffer.take dlen)⟩, { b with buffer := buffer.drop dlen })

/-- What a call comes to. -/
inductive Outcome where
  | returned (a : Answer) (b : Reader)
  /-- Bytes were stored behind the end of `m_buffer`. -/
  | outOfBounds
  /-- So many turns do not suffice. -/
  | unfinished

section Functions

variable (bufferSize : ℕ) (delimiter : UInt8)

/-- The loop of both `bufferedReadUntil`, over their `displaceAndCopy`.  `malloc` has given the
`bufferSize` bytes. -/
def readLoop (displaceAndCopy : ℕ → Reader → Answer × Reader) : ℕ → Reader → Outcome
  | 0, _ => .unfinished
  | fuel + 1, b =>
    if delimiter ∈ b.buffer then
      let r := displaceAndCopy (b.buffer.idxOf delimiter + 1) b
      .returned r.1 r.2
    else if b.maxBufferSize = b.buffer.length then .returned ⟨.full, none⟩ b
    else
      let r := b.stream.partialRead (b.maxBufferSize - b.buffer.length)
      if bufferSize < b.buffer.length + r.2.1.length then .outOfBounds
      else if r.1 < 0 then .returned ⟨.disconnected, none⟩ { b with stream := r.2.2 }
      else readLoop displaceAndCopy fuel { b with stream := r.2.2, buffer := b.buffer ++ r.2.1 }

/-- `bufferedReadUntil(str, delimiter)`. -/
def bufferedReadUntilStr : ℕ → Reader → Outcome :=
  readLoop bufferSize delimiter displaceAndCopyStr

/-- `bufferedReadUntil(data, len, delimiter)`. -/
def bufferedReadUntilData (len : ℕ) : ℕ → Reader → Outcome :=
  readLoop bufferSize delimiter (displaceAndCopyData len)

/-- The calls of a program. -/
inductive Call where
  | str
  /-- With memory for so many bytes. -/
  | data (len : ℕ)

/-- A call. -/
def Call.bufferedReadUntil : Call → ℕ → Reader → Outcome
  | .str => bufferedReadUntilStr bufferSize delimiter
  | .data len => bufferedReadUntilData bufferSize delimiter len

/-- Calls one after the other, each with so many turns; `none` if one of them does not return or
stores bytes out of bounds. -/
def run (fuel : ℕ) : List Call → Reader → Option (List Answer)
  | [], _ => some []
  | c :: cs, b =>
    match c.bufferedReadUntil bufferSize delimiter fuel b with
    | .returned a b => (run fuel cs b).map (a :: ·)
    | _ => none

/-! ## The lines -/

/-- The strings of a stream for a buffer of some size: its terminated pieces, with NUL for the
delimiter, up to the first that is longer than the buffer. -/
def lines (size : ℕ) (stream : List UInt8) : List (List UInt8) :=
  ((stream.splitOn delimiter).dropLast.takeWhile (fun p => p.length + 1 ≤ size)).map (· ++ [0])

/-- What is left of a stream behind its lines. -/
def rest (size : ℕ) (stream : List UInt8) : List UInt8 :=
  stream.drop (lines delimiter size stream).flatten.length

/-- Whether the caller has room for so many bytes. -/
def Call.Room : Call → ℕ → Prop
  | .str, _ => True
  | .data len, n => n ≤ len

instance (c : Call) (n : ℕ) : Decidable (c.Room n) :=
  match c with
  | .str => .isTrue trivial
  | .data len => inferInstanceAs (Decidable (n ≤ len))

/-- A call gets the next line if it has room for it. -/
def serve : List (List UInt8) → Call → Option (List UInt8) × List (List UInt8)
  | [], _ => (none, [])
  | l :: ls, c => if c.Room l.length then (some l, ls) else (none, l :: ls)

/-- The strings that calls get. -/
def expected : List (List UInt8) → List Call → List (Option (List UInt8))
  | _, [] => []
  | ls, c :: cs => (serve ls c).1 :: expected (serve ls c).2 cs

/-- The string that is returned with `E_STREAMBUFFER_READ_OK`. -/
def Answer.string (a : Answer) : Option (List UInt8) := if a.code = .ok then a.copied else none

/-- A reader with an empty buffer. -/
def opened (delivery : Delivery) (closing : ℕ → ℤ) (maxBufferSize : ℕ) (stream : List UInt8) :
    Reader :=
  { stream := { incoming := stream, delivery := delivery, closing := closing }
    maxBufferSize := maxBufferSize }

/-- The reader splits a stream into its lines, however the stream is delivered and read. -/
def Splits (closing : ℕ → ℤ) (maxBufferSize : ℕ) (stream : List UInt8) : Prop :=
  ∀ (delivery : Delivery) (calls : List Call), ∃ fuel answers,
    run bufferSize delimiter fuel calls (opened delivery closing maxBufferSize stream)
        = some answers ∧
      answers.map Answer.string = expected (lines delimiter bufferSize stream) calls

end Functions

variable {bufferSize m : ℕ} {delimiter : UInt8}

/-! ## The lines of a stream -/

/-- A piece that fits the buffer is the first line. -/
theorem lines_piece {p : List UInt8} (hp : delimiter ∉ p) (hfits : p.length + 1 ≤ m)
    (t : List UInt8) :
    lines delimiter m (p ++ delimiter :: t) = (p ++ [0]) :: lines delimiter m t := by
  rw [lines, List.splitOn_append_cons_self_of_not_mem hp,
    List.dropLast_cons_of_ne_nil (List.splitOn_ne_nil _ _),
    List.takeWhile_cons_of_pos (by simpa using hfits), List.map_cons]
  rfl

/-- Behind a line the same is left. -/
theorem rest_piece {p : List UInt8} (hp : delimiter ∉ p) (hfits : p.length + 1 ≤ m)
    (t : List UInt8) : rest delimiter m (p ++ delimiter :: t) = rest delimiter m t := by
  -- A line is as long as its piece with the delimiter.
  have hlen : ((p ++ [(0 : UInt8)]) ++ (lines delimiter m t).flatten).length
      = (p ++ [delimiter]).length + (lines delimiter m t).flatten.length := by
    rw [List.length_append, List.length_append, List.length_append]
    rfl
  have hsplit : p ++ delimiter :: t = (p ++ [delimiter]) ++ t := List.append_cons p delimiter t
  rw [rest, lines_piece hp hfits, List.flatten_cons, hlen, hsplit, ← List.drop_drop,
    List.drop_left]
  rfl

/-- Without a delimiter in the first bytes there is no line. -/
theorem lines_eq_nil {s : List UInt8} (h : delimiter ∉ s.take m) : lines delimiter m s = [] := by
  by_cases hmem : delimiter ∈ s
  · obtain ⟨p, t, rfl, hp⟩ := List.eq_append_cons_of_mem hmem
    have hlong : ¬ p.length + 1 ≤ m := by
      intro hfits
      apply h
      rw [List.take_append, List.mem_append]
      right
      obtain ⟨k, hk⟩ : ∃ k, m - p.length = k + 1 := ⟨m - p.length - 1, by omega⟩
      rw [hk, List.take_succ_cons]
      exact List.mem_cons_self
    rw [lines, List.splitOn_append_cons_self_of_not_mem hp,
      List.dropLast_cons_of_ne_nil (List.splitOn_ne_nil _ _),
      List.takeWhile_cons_of_neg (by simpa using hlong), List.map_nil]
  · rw [lines, List.splitOn_eq_singleton hmem]
    rfl

/-- A short stream without a line has no delimiter. -/
theorem not_mem_of_lines_eq_nil {s : List UInt8} (h : lines delimiter m s = [])
    (hlt : s.length < m) : delimiter ∉ s := by
  intro hmem
  obtain ⟨p, t, rfl, hp⟩ := List.eq_append_cons_of_mem hmem
  rw [List.length_append, List.length_cons] at hlt
  rw [lines_piece hp (by omega)] at h
  exact absurd h (List.cons_ne_nil _ _)

theorem length_rest_le (s : List UInt8) : (rest delimiter m s).length ≤ s.length := by
  rw [rest, List.length_drop]
  exact Nat.sub_le _ _

theorem rest_of_lines_eq_nil {s : List UInt8} (h : lines delimiter m s = []) :
    rest delimiter m s = s := by
  rw [rest, h]
  rfl

/-- Calls with strings get the lines one after the other. -/
theorem expected_str (ls : List (List UInt8)) (n : ℕ) :
    (expected ls (List.replicate n .str)).reduceOption = ls.take n := by
  induction n generalizing ls with
  | zero =>
    rw [List.take_zero]
    cases ls <;> rfl
  | succ n ih =>
    cases ls with
    | nil =>
      have hnone : expected [] (List.replicate (n + 1) .str)
          = none :: expected [] (List.replicate n .str) := rfl
      rw [hnone, List.reduceOption_cons_of_none, ih, List.take_nil, List.take_nil]
    | cons l ls =>
      have hsome : expected (l :: ls) (List.replicate (n + 1) .str)
          = some l :: expected ls (List.replicate n .str) := rfl
      rw [hsome, List.reduceOption_cons_of_some, ih, List.take_succ_cons]

/-- Lines that calls cannot tell apart. -/
theorem eq_of_expected {ls ls' : List (List UInt8)}
    (h : ∀ calls, expected ls calls = expected ls' calls) : ls = ls' := by
  have htake := congrArg List.reduceOption
    (h (List.replicate (max ls.length ls'.length) .str))
  rwa [expected_str, expected_str, List.take_of_length_le (le_max_left _ _),
    List.take_of_length_le (le_max_right _ _)] at htake

/-! ## One call -/

/-- What is in the buffer and still to come. -/
def Reader.coming (b : Reader) : List UInt8 := b.buffer ++ b.stream.incoming

/-- A reader that cannot be filled beyond the bytes that were allocated. -/
structure Ready (bufferSize m : ℕ) (closing : ℕ → ℤ) (b : Reader) : Prop where
  maxBufferSize_eq : b.maxBufferSize = m
  length_le : b.buffer.length ≤ m
  inBounds : m ≤ bufferSize ∨ b.coming.length ≤ bufferSize
  closing_eq : b.stream.closing = closing

/-- The reader behind a `partialRead`. -/
def Reader.refill (b : Reader) : Reader :=
  let r := b.stream.partialRead (b.maxBufferSize - b.buffer.length)
  { b with stream := r.2.2, buffer := b.buffer ++ r.2.1 }

variable {displaceAndCopy : ℕ → Reader → Answer × Reader} {closing : ℕ → ℤ} {b : Reader}

theorem refill_of_closed (h : b.stream.incoming = []) :
    b.refill = { b with stream := { b.stream with calls := b.stream.calls + 1 } } := by
  simp only [Reader.refill, Peer.partialRead, if_pos h, List.append_nil]

/-- The bytes that come are behind those in the buffer. -/
theorem coming_refill (b : Reader) : b.refill.coming = b.coming := by
  by_cases h : b.stream.incoming = []
  · rw [refill_of_closed h]
    rfl
  · simp only [Reader.refill, Peer.partialRead, if_neg h, Reader.coming, List.append_assoc,
      List.take_append_drop]

/-- No more bytes come than the buffer has room for. -/
theorem length_partialRead_le (p : Peer) (n : ℕ) : (p.partialRead n).2.1.length ≤ n := by
  unfold Peer.partialRead
  split_ifs with h
  · exact Nat.zero_le n
  · have hcount := p.delivery.count_le p.calls (min n p.incoming.length)
    show (p.incoming.take _).length ≤ n
    rw [List.length_take]
    omega

theorem closing_partialRead (p : Peer) (n : ℕ) : (p.partialRead n).2.2.closing = p.closing := by
  unfold Peer.partialRead
  split_ifs <;> rfl

theorem Ready.refill (h : Ready bufferSize m closing b) : Ready bufferSize m closing b.refill := by
  have hroom := length_partialRead_le b.stream (b.maxBufferSize - b.buffer.length)
  have hmax := h.maxBufferSize_eq
  have hle := h.length_le
  refine ⟨hmax, ?_, ?_, (closing_partialRead _ _).trans h.closing_eq⟩
  · show (b.buffer ++ _).length ≤ m
    rw [List.length_append]
    omega
  · rw [coming_refill]
    exact h.inBounds

/-- Nothing is stored out of bounds. -/
theorem Ready.length_refill_le (h : Ready bufferSize m closing b) :
    b.buffer.length + (b.stream.partialRead (b.maxBufferSize - b.buffer.length)).2.1.length
      ≤ bufferSize := by
  have hlen : b.refill.buffer.length = b.buffer.length
      + (b.stream.partialRead (b.maxBufferSize - b.buffer.length)).2.1.length :=
    List.length_append
  have hcoming : b.refill.buffer.length ≤ b.coming.length := by
    rw [← coming_refill, Reader.coming, List.length_append]
    exact Nat.le_add_right _ _
  rw [← hlen]
  rcases h.inBounds with hm | hall
  · exact h.refill.length_le.trans hm
  · exact hcoming.trans hall

/-- A turn that reads bytes, and stores them in bounds. -/
theorem readLoop_of_open
    (hlen : b.buffer.length
      + (b.stream.partialRead (b.maxBufferSize - b.buffer.length)).2.1.length ≤ bufferSize)
    (hmem : delimiter ∉ b.buffer) (hfull : b.maxBufferSize ≠ b.buffer.length)
    (hopen : b.stream.incoming ≠ []) (fuel : ℕ) :
    readLoop bufferSize delimiter displaceAndCopy (fuel + 1) b
      = readLoop bufferSize delimiter displaceAndCopy fuel b.refill := by
  have hsize : ¬ (b.stream.partialRead (b.maxBufferSize - b.buffer.length)).1 < 0 := by
    simp only [Peer.partialRead, if_neg hopen]
    omega
  simp only [readLoop, if_neg hmem, if_neg hfull, if_neg (not_lt.mpr hlen), if_neg hsize]
  rfl

/-- A turn behind the last byte. -/
theorem readLoop_of_closed (h : b.buffer.length ≤ bufferSize) (hmem : delimiter ∉ b.buffer)
    (hfull : b.maxBufferSize ≠ b.buffer.length) (hclosed : b.stream.incoming = []) (fuel : ℕ) :
    readLoop bufferSize delimiter displaceAndCopy (fuel + 1) b
      = if b.stream.closing b.stream.calls < 0 then
          .returned ⟨.disconnected, none⟩
            { b with stream := { b.stream with calls := b.stream.calls + 1 } }
        else readLoop bufferSize delimiter displaceAndCopy fuel b.refill := by
  have hlen : ¬ bufferSize < b.buffer.length + ([] : List UInt8).length := by
    rw [List.length_nil]
    omega
  rw [refill_of_closed hclosed]
  simp only [readLoop, if_neg hmem, if_neg hfull, Peer.partialRead, if_pos hclosed, if_neg hlen,
    List.append_nil]

/-- What a call comes to: a piece in the buffer that is copied, or an answer without a string where
no piece fits. -/
inductive Reads (bufferSize m : ℕ) (delimiter : UInt8)
    (displaceAndCopy : ℕ → Reader → Answer × Reader) (closing : ℕ → ℤ) (b : Reader) :
    Outcome → Prop
  | piece {p t : List UInt8} {b' : Reader} (hp : delimiter ∉ p)
      (hbuffer : b'.buffer = p ++ delimiter :: t) (hready : Ready bufferSize m closing b')
      (hcoming : b'.coming = b.coming) :
      Reads bufferSize m delimiter displaceAndCopy closing b
        (.returned (displaceAndCopy (p.length + 1) b').1 (displaceAndCopy (p.length + 1) b').2)
  | nothing {code : ReadError} {b' : Reader} (hcode : code ≠ .ok)
      (hready : Ready bufferSize m closing b') (hcoming : b'.coming = b.coming)
      (hnone : delimiter ∉ b.coming.take m) :
      Reads bufferSize m delimiter displaceAndCopy closing b (.returned ⟨code, none⟩ b')

/-- What holds behind a `partialRead` holds before it. -/
theorem Reads.of_refill {o : Outcome}
    (h : Reads bufferSize m delimiter displaceAndCopy closing b.refill o) :
    Reads bufferSize m delimiter displaceAndCopy closing b o := by
  cases h with
  | piece hp hbuffer hready hcoming =>
    exact .piece hp hbuffer hready (hcoming.trans (coming_refill b))
  | nothing hcode hready hcoming hnone =>
    rw [coming_refill] at hnone hcoming
    exact .nothing hcode hready hcoming hnone

/-- A call where the buffer decides. -/
theorem readLoop_of_decided (h : Ready bufferSize m closing b)
    (hdecided : delimiter ∈ b.buffer ∨ b.maxBufferSize = b.buffer.length) :
    Reads bufferSize m delimiter displaceAndCopy closing b
      (readLoop bufferSize delimiter displaceAndCopy 1 b) := by
  by_cases hmem : delimiter ∈ b.buffer
  · obtain ⟨p, t, hbuffer, hp⟩ := List.eq_append_cons_of_mem hmem
    have hidx : b.buffer.idxOf delimiter = p.length := by
      rw [hbuffer, List.idxOf_append_of_notMem hp, List.idxOf_cons_self, Nat.add_zero]
    simp only [readLoop, if_pos hmem, hidx]
    exact .piece hp hbuffer h rfl
  · have hfull := hdecided.resolve_left hmem
    have hlen : b.buffer.length = m := by rw [← hfull, h.maxBufferSize_eq]
    simp only [readLoop, if_neg hmem, if_pos hfull]
    apply Reads.nothing (by decide) h rfl
    rw [Reader.coming, List.take_left' hlen]
    exact hmem

/-- A call that is told of the end. -/
theorem readLoop_of_disconnected (h : Ready bufferSize m closing b)
    (hclosed : b.stream.incoming = []) (hneg : closing b.stream.calls < 0) :
    Reads bufferSize m delimiter displaceAndCopy closing b
      (readLoop bufferSize delimiter displaceAndCopy 1 b) := by
  by_cases hdecided : delimiter ∈ b.buffer ∨ b.maxBufferSize = b.buffer.length
  · exact readLoop_of_decided h hdecided
  · push Not at hdecided
    have hlen := (Nat.le_add_right _ _).trans h.length_refill_le
    rw [readLoop_of_closed hlen hdecided.1 hdecided.2 hclosed, h.closing_eq, if_pos hneg]
    refine .nothing (by decide) ⟨h.maxBufferSize_eq, h.length_le, h.inBounds, h.closing_eq⟩ rfl ?_
    intro hmem
    -- Behind the last byte everything is in the buffer.
    rw [Reader.coming, hclosed, List.append_nil] at hmem
    exact hdecided.1 (List.mem_of_mem_take hmem)

/-- A call behind the last byte returns at the first negative value. -/
theorem readLoop_closed_spec (d : ℕ) (h : Ready bufferSize m closing b)
    (hclosed : b.stream.incoming = []) (hneg : closing (b.stream.calls + d) < 0) :
    ∃ fuel, Reads bufferSize m delimiter displaceAndCopy closing b
      (readLoop bufferSize delimiter displaceAndCopy fuel b) := by
  -- The induction is on how many values come before the negative one.
  induction d generalizing b with
  | zero => exact ⟨1, readLoop_of_disconnected h hclosed hneg⟩
  | succ d ih =>
    by_cases hdecided : delimiter ∈ b.buffer ∨ b.maxBufferSize = b.buffer.length
    · exact ⟨1, readLoop_of_decided h hdecided⟩
    · by_cases hnow : closing b.stream.calls < 0
      · exact ⟨1, readLoop_of_disconnected h hclosed hnow⟩
      · push Not at hdecided
        have hlen := (Nat.le_add_right _ _).trans h.length_refill_le
        have hrefill := refill_of_closed hclosed
        have hlater : closing (b.refill.stream.calls + d) < 0 := by
          rw [hrefill]
          show closing (b.stream.calls + 1 + d) < 0
          rw [Nat.add_assoc, Nat.add_comm 1 d]
          exact hneg
        obtain ⟨fuel, hfuel⟩ := ih h.refill (by rw [hrefill]; exact hclosed) hlater
        use fuel + 1
        rw [readLoop_of_closed hlen hdecided.1 hdecided.2 hclosed, h.closing_eq, if_neg hnow]
        exact hfuel.of_refill

/-- Where a call for a stream has an end: at a delimiter, at a full buffer, or because the end of
the stream is reported again and again. -/
def Ends (m : ℕ) (delimiter : UInt8) (closing : ℕ → ℤ) (coming : List UInt8) : Prop :=
  delimiter ∈ coming.take m ∨ m ≤ coming.length ∨ ∀ k, ∃ j ≥ k, closing j < 0

/-- Each call with an end returns. -/
theorem readLoop_spec (hends : Ends m delimiter closing b.coming)
    (h : Ready bufferSize m closing b) :
    ∃ fuel, Reads bufferSize m delimiter displaceAndCopy closing b
      (readLoop bufferSize delimiter displaceAndCopy fuel b) := by
  -- The induction is on how many bytes are still to come.
  induction hn : b.stream.incoming.length using Nat.strong_induction_on generalizing b with
  | _ n ih =>
    by_cases hdecided : delimiter ∈ b.buffer ∨ b.maxBufferSize = b.buffer.length
    · exact ⟨1, readLoop_of_decided h hdecided⟩
    · push Not at hdecided
      have hroom : b.buffer.length < b.maxBufferSize := by
        have hmax := h.maxBufferSize_eq
        have hle := h.length_le
        have hfull := hdecided.2
        omega
      by_cases hclosed : b.stream.incoming = []
      · have hcoming : b.coming = b.buffer := by rw [Reader.coming, hclosed, List.append_nil]
        rw [h.maxBufferSize_eq] at hroom
        rw [hcoming] at hends
        -- The buffer has decided nothing, so that only the report of the end is left.
        rcases hends with hmem | hlong | hends
        · exact absurd (List.mem_of_mem_take hmem) hdecided.1
        · exact absurd hlong (not_le.mpr hroom)
        · obtain ⟨j, hj, hneg⟩ := hends b.stream.calls
          apply readLoop_closed_spec (j - b.stream.calls) h hclosed
          rw [Nat.add_sub_cancel' hj]
          exact hneg
      · have hshorter : b.refill.stream.incoming.length < n := by
          have hlen := List.length_pos_iff.mpr hclosed
          have hcount := b.stream.delivery.count_pos b.stream.calls
            (min (b.maxBufferSize - b.buffer.length) b.stream.incoming.length) (by omega)
          simp only [Reader.refill, Peer.partialRead, if_neg hclosed, List.length_drop]
          omega
        obtain ⟨fuel, hfuel⟩ := ih _ hshorter (by rw [coming_refill]; exact hends) h.refill rfl
        use fuel + 1
        rw [readLoop_of_open h.length_refill_le hdecided.1 hdecided.2 hclosed]
        exact hfuel.of_refill

/-! ## The copies -/

/-- A piece with NUL for its delimiter is copied, and what is behind it moves to the front. -/
theorem displaceAndCopyStr_piece {p t : List UInt8} (hbuffer : b.buffer = p ++ delimiter :: t) :
    displaceAndCopyStr (p.length + 1) b = (⟨.ok, some (p ++ [0])⟩, { b with buffer := t }) := by
  have hset : b.buffer.set (p.length + 1 - 1) 0 = (p ++ [0]) ++ t := by
    rw [hbuffer, Nat.add_sub_cancel, List.set_append_right _ _ le_rfl, Nat.sub_self,
      List.set_cons_zero, List.append_assoc]
    rfl
  have hlen : (p ++ [(0 : UInt8)]).length = p.length + 1 := List.length_append
  simp only [displaceAndCopyStr, hset, List.take_left' hlen, List.drop_left' hlen]

/-- A copy into memory of the caller is one into a string, if there is room for it. -/
theorem displaceAndCopyData_eq (len dlen : ℕ) (b : Reader) :
    displaceAndCopyData len dlen b
      = if len < dlen then (⟨.maxSizeExceed, none⟩, b) else displaceAndCopyStr dlen b := rfl

/-- What a call comes to: the next line, if there is one and room for it. -/
structure Served (bufferSize m : ℕ) (delimiter : UInt8) (closing : ℕ → ℤ) (c : Call) (b : Reader)
    (a : Answer) (b' : Reader) : Prop where
  ready : Ready bufferSize m closing b'
  serve_eq : serve (lines delimiter m b.coming) c = (a.string, lines delimiter m b'.coming)
  rest_eq : rest delimiter m b'.coming = rest delimiter m b.coming

/-- A call with no string leaves what is coming. -/
theorem Served.of_nothing {c : Call} {code : ReadError} (hcode : code ≠ .ok) {b b' : Reader}
    (hready : Ready bufferSize m closing b') (hcoming : b'.coming = b.coming)
    (hroom : ∀ l ∈ (lines delimiter m b.coming).head?, ¬ c.Room l.length) :
    Served bufferSize m delimiter closing c b ⟨code, none⟩ b' := by
  have hstring : (⟨code, none⟩ : Answer).string = none := if_neg hcode
  refine ⟨hready, ?_, by rw [hcoming]⟩
  rw [hcoming, hstring]
  cases hls : lines delimiter m b.coming with
  | nil => rfl
  | cons l ls =>
    rw [hls] at hroom
    exact if_neg (hroom l rfl)

/-- A piece that is in the buffer fits it. -/
theorem Ready.fits {p t : List UInt8} (h : Ready bufferSize m closing b)
    (hbuffer : b.buffer = p ++ delimiter :: t) : p.length + 1 ≤ m ∧ t.length ≤ m := by
  have hle := h.length_le
  rw [hbuffer, List.length_append, List.length_cons] at hle
  omega

/-- A call that copies a piece into a string. -/
theorem Served.of_piece {c : Call} {p t : List UInt8} {b b' : Reader} (hp : delimiter ∉ p)
    (hbuffer : b'.buffer = p ++ delimiter :: t) (hready : Ready bufferSize m closing b')
    (hcoming : b'.coming = b.coming) (hroom : c.Room (p.length + 1)) :
    Served bufferSize m delimiter closing c b (displaceAndCopyStr (p.length + 1) b').1
      (displaceAndCopyStr (p.length + 1) b').2 := by
  obtain ⟨hfits, hle⟩ := hready.fits hbuffer
  have hbehind : b.coming = p ++ delimiter :: (t ++ b'.stream.incoming) := by
    rw [← hcoming, Reader.coming, hbuffer, List.append_assoc, List.cons_append]
  rw [displaceAndCopyStr_piece hbuffer]
  refine ⟨⟨hready.maxBufferSize_eq, hle, ?_, hready.closing_eq⟩, ?_, ?_⟩
  · have hbounds := hready.inBounds
    rw [hcoming, hbehind, List.length_append, List.length_cons] at hbounds
    refine hbounds.imp_right ?_
    intro hall
    show (t ++ b'.stream.incoming).length ≤ bufferSize
    omega
  · rw [hbehind, lines_piece hp hfits]
    exact if_pos (by rw [List.length_append]; exact hroom)
  · rw [hbehind, rest_piece hp hfits]
    rfl

/-- What a call of either function comes to. -/
theorem Reads.served {c : Call} {fuel : ℕ}
    (hcopy : ∀ dlen b', c.Room dlen → displaceAndCopy dlen b' = displaceAndCopyStr dlen b')
    (hrefuse : ∀ dlen b', ¬ c.Room dlen → displaceAndCopy dlen b' = (⟨.maxSizeExceed, none⟩, b'))
    (h : Reads bufferSize m delimiter displaceAndCopy closing b
      (readLoop bufferSize delimiter displaceAndCopy fuel b)) :
    ∃ a b', readLoop bufferSize delimiter displaceAndCopy fuel b = .returned a b' ∧
      Served bufferSize m delimiter closing c b a b' := by
  generalize readLoop bufferSize delimiter displaceAndCopy fuel b = o at h
  cases h with
  | @piece p t b' hp hbuffer hready hcoming =>
    refine ⟨_, _, rfl, ?_⟩
    by_cases hroom : c.Room (p.length + 1)
    · rw [hcopy _ _ hroom]
      exact .of_piece hp hbuffer hready hcoming hroom
    · -- A piece that the caller has no room for stays in the buffer.
      rw [hrefuse _ _ hroom]
      apply Served.of_nothing (by decide) hready hcoming
      intro l hl
      rw [← hcoming, Reader.coming, hbuffer, List.append_assoc, List.cons_append,
        lines_piece hp (hready.fits hbuffer).1, List.head?_cons, Option.mem_some_iff] at hl
      rw [← hl, List.length_append]
      exact hroom
  | nothing hcode hready hcoming hnone =>
    refine ⟨_, _, rfl, .of_nothing hcode hready hcoming ?_⟩
    rw [lines_eq_nil hnone]
    exact fun l hl => absurd hl (Option.not_mem_none l)

/-- Every call with an end is served. -/
theorem bufferedReadUntil_spec (hends : Ends m delimiter closing b.coming) (c : Call)
    (h : Ready bufferSize m closing b) :
    ∃ fuel a b', c.bufferedReadUntil bufferSize delimiter fuel b = .returned a b' ∧
      Served bufferSize m delimiter closing c b a b' := by
  cases c with
  | str =>
    obtain ⟨fuel, hreads⟩ : ∃ fuel, Reads bufferSize m delimiter displaceAndCopyStr closing b
        (readLoop bufferSize delimiter displaceAndCopyStr fuel b) := readLoop_spec hends h
    exact ⟨fuel, hreads.served (fun _ _ _ => rfl) (fun _ _ hroom => absurd trivial hroom)⟩
  | data len =>
    obtain ⟨fuel, hreads⟩ : ∃ fuel, Reads bufferSize m delimiter (displaceAndCopyData len) closing b
        (readLoop bufferSize delimiter (displaceAndCopyData len) fuel b) := readLoop_spec hends h
    refine ⟨fuel, hreads.served ?_ ?_⟩
    · intro dlen b' hroom
      rw [displaceAndCopyData_eq]
      exact if_neg (not_lt.mpr hroom)
    · intro dlen b' hroom
      rw [displaceAndCopyData_eq]
      exact if_pos (not_le.mp hroom)

/-! ## Runs of calls -/

/-- More turns change nothing for a call that returns. -/
theorem readLoop_mono {fuel fuel' : ℕ} (hle : fuel ≤ fuel') {a : Answer} {b' : Reader}
    (h : readLoop bufferSize delimiter displaceAndCopy fuel b = .returned a b') :
    readLoop bufferSize delimiter displaceAndCopy fuel' b = .returned a b' := by
  induction fuel generalizing b fuel' with
  | zero => exact absurd h (by simp [readLoop])
  | succ fuel ih =>
    obtain ⟨k, rfl⟩ := Nat.exists_eq_add_of_le' (Nat.zero_lt_of_lt hle)
    rw [readLoop] at h ⊢
    dsimp only at h ⊢
    split_ifs at h ⊢ with hmem hfull hlen hsize
    · exact h
    · exact h
    · exact h
    · exact ih (by omega) h

theorem Call.bufferedReadUntil_mono {c : Call} {fuel fuel' : ℕ} (hle : fuel ≤ fuel') {a : Answer}
    {b' : Reader} (h : c.bufferedReadUntil bufferSize delimiter fuel b = .returned a b') :
    c.bufferedReadUntil bufferSize delimiter fuel' b = .returned a b' := by
  cases c with
  | str => exact readLoop_mono hle h
  | data len => exact readLoop_mono hle h

/-- A call that returns is served, with any number of turns. -/
theorem served_of_returned (hends : Ends m delimiter closing b.coming)
    (h : Ready bufferSize m closing b) {c : Call} {fuel : ℕ} {a : Answer} {b' : Reader}
    (hcall : c.bufferedReadUntil bufferSize delimiter fuel b = .returned a b') :
    Served bufferSize m delimiter closing c b a b' := by
  obtain ⟨fuel', a', b'', hcall', hserved⟩ := bufferedReadUntil_spec hends c h
  -- Both have the answer that there is with the larger number of turns.
  have heq := (Call.bufferedReadUntil_mono (le_max_left fuel fuel') hcall).symm.trans
    (Call.bufferedReadUntil_mono (le_max_right fuel fuel') hcall')
  injection heq with ha hb
  rwa [ha, hb]

/-- A run begins with a call that returns. -/
theorem run_cons {fuel : ℕ} {c : Call} {a : Answer} {b' : Reader} (cs : List Call)
    (h : c.bufferedReadUntil bufferSize delimiter fuel b = .returned a b') :
    run bufferSize delimiter fuel (c :: cs) b
      = (run bufferSize delimiter fuel cs b').map (a :: ·) := by
  rw [run, h]

/-- The first call of a run returns. -/
theorem exists_of_run_cons {fuel : ℕ} {c : Call} {cs : List Call} {answers : List Answer}
    (h : run bufferSize delimiter fuel (c :: cs) b = some answers) :
    ∃ a b' others, c.bufferedReadUntil bufferSize delimiter fuel b = .returned a b' ∧
      run bufferSize delimiter fuel cs b' = some others ∧ answers = a :: others := by
  cases hc : c.bufferedReadUntil bufferSize delimiter fuel b with
  | returned a b' =>
    rw [run_cons cs hc] at h
    obtain ⟨others, hothers, hanswers⟩ := Option.map_eq_some_iff.mp h
    exact ⟨a, b', others, rfl, hothers, hanswers.symm⟩
  | outOfBounds =>
    rw [run, hc] at h
    exact absurd h (by simp)
  | unfinished =>
    rw [run, hc] at h
    exact absurd h (by simp)

theorem run_mono {fuel fuel' : ℕ} (hle : fuel ≤ fuel') {calls : List Call} {answers : List Answer}
    (h : run bufferSize delimiter fuel calls b = some answers) :
    run bufferSize delimiter fuel' calls b = some answers := by
  induction calls generalizing b answers with
  | nil => exact h
  | cons c cs ih =>
    obtain ⟨a, b', others, hc, hothers, rfl⟩ := exists_of_run_cons h
    rw [run_cons cs (Call.bufferedReadUntil_mono hle hc), ih hothers, Option.map_some]

/-- Where all calls for a stream have an end: what is behind its lines fills the buffer, or the end
of the stream is reported again and again. -/
def Settles (m : ℕ) (delimiter : UInt8) (closing : ℕ → ℤ) (stream : List UInt8) : Prop :=
  m ≤ (rest delimiter m stream).length ∨ ∀ k, ∃ j ≥ k, closing j < 0

theorem Settles.ends {stream : List UInt8} (h : Settles m delimiter closing stream) :
    Ends m delimiter closing stream :=
  .inr (h.imp_left fun hle => hle.trans (length_rest_le stream))

/-- The strings of a run are the lines of what is coming. -/
theorem run_spec (calls : List Call) (hsettles : Settles m delimiter closing b.coming)
    (h : Ready bufferSize m closing b) :
    ∃ fuel answers, run bufferSize delimiter fuel calls b = some answers ∧
      answers.map Answer.string = expected (lines delimiter m b.coming) calls := by
  induction calls generalizing b with
  | nil => exact ⟨0, [], rfl, rfl⟩
  | cons c cs ih =>
    obtain ⟨fuel₁, a, b', hcall, hserved⟩ := bufferedReadUntil_spec hsettles.ends c h
    have hnext : Settles m delimiter closing b'.coming := by
      unfold Settles
      rw [hserved.rest_eq]
      exact hsettles
    obtain ⟨fuel₂, answers, hrun, hstrings⟩ := ih hnext hserved.ready
    refine ⟨max fuel₁ fuel₂, a :: answers, ?_, ?_⟩
    · rw [run_cons cs (Call.bufferedReadUntil_mono (le_max_left _ _) hcall),
        run_mono (le_max_right _ _) hrun, Option.map_some]
    · rw [expected, hserved.serve_eq, List.map_cons, hstrings]

/-! ## Where a stream is not split -/

/-- A stream longer than the buffer, and a buffer that is filled beyond its size. -/
theorem not_splits_of_lt {stream : List UInt8} (hm : bufferSize < m)
    (hlong : bufferSize < stream.length) : ¬ Splits bufferSize delimiter closing m stream := by
  intro hsplits
  obtain ⟨fuel, answers, hrun, -⟩ := hsplits .whole [.str]
  obtain ⟨a, b', others, hcall, -, -⟩ := exists_of_run_cons hrun
  cases fuel with
  | zero => exact absurd hcall Outcome.noConfusion
  | succ fuel =>
    have hopen : (opened .whole closing m stream).stream.incoming ≠ [] :=
      List.ne_nil_of_length_pos (Nat.zero_lt_of_lt hlong)
    have hfull : m ≠ 0 := Nat.ne_zero_of_lt hm
    -- The whole stream comes at once.
    have hread : ((opened .whole closing m stream).stream.partialRead (m - 0)).2.1.length
        = min m stream.length := by
      rw [Peer.partialRead, if_neg hopen]
      show (stream.take (min m stream.length)).length = _
      rw [List.length_take]
      omega
    have hstore : readLoop bufferSize delimiter displaceAndCopyStr (fuel + 1)
        (opened .whole closing m stream) = .outOfBounds := by
      rw [readLoop]
      refine (if_neg List.not_mem_nil).trans ((if_neg hfull).trans (if_pos ?_))
      show bufferSize < 0 + _
      rw [Nat.zero_add]
      exact lt_of_lt_of_eq (lt_min hm hlong) hread.symm
    exact absurd (hstore.symm.trans hcall) Outcome.noConfusion

/-- A reader for which no delimiter is coming, and too few bytes to fill its buffer. -/
structure Idle (m : ℕ) (delimiter : UInt8) (closing : ℕ → ℤ) (b : Reader) : Prop where
  maxBufferSize_eq : b.maxBufferSize = m
  not_mem : delimiter ∉ b.coming
  length_lt : b.coming.length < m
  closing_eq : b.stream.closing = closing

/-- A call of such a reader returns when a value is negative. -/
theorem Idle.readLoop {fuel : ℕ} (h : Idle m delimiter closing b) {a : Answer} {b' : Reader}
    (hcall : readLoop bufferSize delimiter displaceAndCopy fuel b = .returned a b') :
    Idle m delimiter closing b' ∧ ∃ j ≥ b.stream.calls, closing j < 0 ∧ j < b'.stream.calls := by
  induction fuel generalizing b with
  | zero => exact absurd hcall Outcome.noConfusion
  | succ fuel ih =>
    have hmem : delimiter ∉ b.buffer := fun hmem => h.not_mem (List.mem_append_left _ hmem)
    have hlt : b.buffer.length < m := by
      apply lt_of_le_of_lt _ h.length_lt
      rw [Reader.coming, List.length_append]
      exact Nat.le_add_right _ _
    have hfull : b.maxBufferSize ≠ b.buffer.length := by
      rw [h.maxBufferSize_eq]
      exact hlt.ne'
    have hnext : Idle m delimiter closing b.refill := by
      refine ⟨h.maxBufferSize_eq, ?_, ?_, (closing_partialRead _ _).trans h.closing_eq⟩
      · rw [coming_refill]
        exact h.not_mem
      · rw [coming_refill]
        exact h.length_lt
    by_cases hlen : b.buffer.length
        + (b.stream.partialRead (b.maxBufferSize - b.buffer.length)).2.1.length ≤ bufferSize
    · by_cases hclosed : b.stream.incoming = []
      · have hcalls : b.refill.stream.calls = b.stream.calls + 1 := by
          rw [refill_of_closed hclosed]
        rw [readLoop_of_closed ((Nat.le_add_right _ _).trans hlen) hmem hfull hclosed] at hcall
        split_ifs at hcall with hneg
        · injection hcall with _ hb
          rw [h.closing_eq] at hneg
          rw [← hb, ← refill_of_closed hclosed]
          exact ⟨hnext, _, le_rfl, hneg, by omega⟩
        · obtain ⟨hidle, j, hj, hothers⟩ := ih hnext hcall
          exact ⟨hidle, j, by omega, hothers⟩
      · have hcalls : b.refill.stream.calls = b.stream.calls + 1 := by
          simp only [Reader.refill, Peer.partialRead, if_neg hclosed]
        rw [readLoop_of_open hlen hmem hfull hclosed] at hcall
        obtain ⟨hidle, j, hj, hothers⟩ := ih hnext hcall
        exact ⟨hidle, j, by omega, hothers⟩
    · have hstore : BufferedReader.readLoop bufferSize delimiter displaceAndCopy (fuel + 1) b
          = .outOfBounds := by
        rw [BufferedReader.readLoop]
        exact (if_neg hmem).trans ((if_neg hfull).trans (if_pos (not_le.mp hlen)))
      exact absurd (hstore.symm.trans hcall) Outcome.noConfusion

/-- Calls of such a reader take a negative value each. -/
theorem Idle.run {fuel : ℕ} (n : ℕ) (h : Idle m delimiter closing b) {answers : List Answer}
    (hrun : run bufferSize delimiter fuel (List.replicate (n + 1) .str) b = some answers) :
    ∃ j ≥ b.stream.calls + n, closing j < 0 := by
  induction n generalizing b answers with
  | zero =>
    obtain ⟨a, b', others, hcall, -, -⟩ := exists_of_run_cons hrun
    obtain ⟨-, j, hj, hneg, -⟩ := h.readLoop hcall
    exact ⟨j, hj, hneg⟩
  | succ n ih =>
    obtain ⟨a, b', others, hcall, hothers, -⟩ := exists_of_run_cons hrun
    obtain ⟨hidle, j, hj, -, hlt⟩ := h.readLoop hcall
    obtain ⟨i, hi, hneg⟩ := ih hidle hothers
    exact ⟨i, by omega, hneg⟩

/-- More calls than there are lines take a negative value each, if the rest of the stream does not
fill the buffer. -/
theorem exists_negative_of_run {fuel : ℕ} (n : ℕ) {ls : List (List UInt8)}
    (h : Ready bufferSize m closing b) (hls : lines delimiter m b.coming = ls)
    (hrest : (rest delimiter m b.coming).length < m) {answers : List Answer}
    (hrun : run bufferSize delimiter fuel (List.replicate (ls.length + n + 1) .str) b
      = some answers) :
    ∃ j ≥ n, closing j < 0 := by
  -- The induction is on the lines: behind the last of them the reader is idle.
  induction ls generalizing b answers with
  | nil =>
    rw [rest_of_lines_eq_nil hls] at hrest
    have hidle : Idle m delimiter closing b :=
      ⟨h.maxBufferSize_eq, not_mem_of_lines_eq_nil hls hrest, hrest, h.closing_eq⟩
    rw [List.length_nil, Nat.zero_add] at hrun
    obtain ⟨j, hj, hneg⟩ := hidle.run n hrun
    exact ⟨j, by omega, hneg⟩
  | cons l ls ih =>
    have hends : Ends m delimiter closing b.coming := by
      left
      by_contra hnone
      rw [lines_eq_nil hnone] at hls
      exact absurd hls.symm (List.cons_ne_nil _ _)
    rw [List.length_cons, show ls.length + 1 + n = ls.length + n + 1 from by omega] at hrun
    obtain ⟨a, b', others, hcall, hothers, -⟩ := exists_of_run_cons hrun
    have hserved := served_of_returned hends h hcall
    have hserve := hserved.serve_eq
    rw [hls] at hserve
    exact ih hserved.ready (Prod.mk.inj hserve).2.symm (by rw [hserved.rest_eq]; exact hrest)
      hothers

/-- A stream is split into its lines exactly if it cannot be stored beyond the bytes that were
allocated, no line is too long for `m_maxBufferSize`, and the calls behind the lines have an end. -/
theorem splits_iff (bufferSize maxBufferSize : ℕ) (delimiter : UInt8) (closing : ℕ → ℤ)
    (stream : List UInt8) :
    Splits bufferSize delimiter closing maxBufferSize stream
      ↔ (maxBufferSize ≤ bufferSize ∨ stream.length ≤ bufferSize) ∧
        lines delimiter maxBufferSize stream = lines delimiter bufferSize stream ∧
        (maxBufferSize ≤ (rest delimiter maxBufferSize stream).length ∨
          ∀ k, ∃ j ≥ k, closing j < 0) := by
  have hready : ∀ delivery, (maxBufferSize ≤ bufferSize ∨ stream.length ≤ bufferSize) →
      Ready bufferSize maxBufferSize closing (opened delivery closing maxBufferSize stream) :=
    fun delivery hbounds => ⟨rfl, Nat.zero_le _, hbounds, rfl⟩
  constructor
  · intro hsplits
    have hbounds : maxBufferSize ≤ bufferSize ∨ stream.length ≤ bufferSize := by
      by_contra hover
      push Not at hover
      exact not_splits_of_lt hover.1 hover.2 hsplits
    have hsettles : Settles maxBufferSize delimiter closing stream := by
      by_contra hopen
      unfold Settles at hopen
      push Not at hopen
      obtain ⟨hrest, k, hzero⟩ := hopen
      -- As many calls behind the lines would take as many negative values.
      obtain ⟨fuel, answers, hrun, -⟩ := hsplits .whole
        (List.replicate ((lines delimiter maxBufferSize stream).length + k + 1) .str)
      obtain ⟨j, hj, hneg⟩ := exists_negative_of_run k (hready _ hbounds) rfl hrest hrun
      exact absurd hneg (not_lt.mpr (hzero j hj))
    refine ⟨hbounds, ?_, hsettles⟩
    -- Every run is one over the lines that fit `maxBufferSize`.
    apply eq_of_expected
    intro calls
    obtain ⟨fuel, answers, hrun, hstrings⟩ := hsplits .whole calls
    obtain ⟨fuel', answers', hrun', hstrings'⟩ := run_spec calls
      (b := opened .whole closing maxBufferSize stream) hsettles (hready _ hbounds)
    have heq := (run_mono (le_max_left fuel fuel') hrun).symm.trans
      (run_mono (le_max_right fuel fuel') hrun')
    rw [Option.some.injEq] at heq
    rw [← hstrings, heq]
    exact hstrings'.symm
  · rintro ⟨hbounds, hlines, hsettles⟩ delivery calls
    rw [← hlines]
    exact run_spec calls (b := opened delivery closing maxBufferSize stream) hsettles
      (hready delivery hbounds)

/-- A line of one byte does not come out where `m_maxBufferSize` is zero in memory; where it is
larger than the buffer, two bytes are stored in a buffer of one; and at an end that is reported by
zero a call does not return. -/
theorem not_splits :
    ¬ Splits 64 10 (fun _ => -1) 0 [97, 10] ∧ ¬ Splits 1 10 (fun _ => -1) 2 [97, 10] ∧
      ¬ Splits 64 10 (fun _ => 0) 64 [] := by
  refine ⟨?_, not_splits_of_lt (by decide) (by decide), ?_⟩
  · intro hsplits
    obtain ⟨fuel, answers, hrun, hstrings⟩ := hsplits .whole [.str]
    have hexpected : expected (lines 10 64 [97, 10]) [.str] = [some [97, 0]] := by decide
    cases fuel with
    | zero =>
      have hnone : run 64 10 0 [.str] (opened .whole (fun _ => -1) 0 [97, 10]) = none := rfl
      exact absurd (hnone.symm.trans hrun) (Option.some_ne_none _).symm
    | succ fuel =>
      have hfull : run 64 10 (fuel + 1) [.str] (opened .whole (fun _ => -1) 0 [97, 10])
          = some [⟨.full, none⟩] := rfl
      rw [hfull, Option.some.injEq] at hrun
      rw [hexpected, ← hrun] at hstrings
      exact absurd hstrings (by decide)
  · intro hsplits
    obtain ⟨fuel, answers, hrun, -⟩ := hsplits .whole [.str]
    have hidle : Idle 64 10 (fun _ => 0) (opened .whole (fun _ => 0) 64 []) :=
      ⟨rfl, List.not_mem_nil, by decide, rfl⟩
    obtain ⟨j, -, hneg⟩ := hidle.run 0 hrun
    exact absurd hneg (lt_irrefl _)

end BufferedReader

end Mantids
