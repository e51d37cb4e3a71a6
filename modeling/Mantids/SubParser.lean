/-
# The sub-parser

`SubParser` (`Memory/subparser.cpp`) collects the bytes written to it in a chunked
container, cuts them according to a parse mode and hands every piece to the virtual
function `parse()` of the concrete sub-parser.

* `SubParser` — the object, with the list of what `parse()` was shown so far;
* `writeIntoParser` — one write in each of the parse modes;
* `write` — the same as a consumer that is fed a stream;
* `Holds` — what is true of the object between two writes, with a lemma for each thing
  that a write does to it.

The virtual function is a parameter: from the state of the concrete sub-parser, the
current settings and what it is shown it computes its next state, new settings (the
protected setters are all it has to change them) and a status.  The other parameter is
the contents of freshly allocated memory, which `getLastBytesInCommon` compares with
the delimiter when nothing was copied over it.
-/
import Mantids.BChunksRead
import Mantids.Lib.Feed

namespace Mantids

/-! ## The object -/

inductive ParseStatus where
  | error
  | getMoreData
  | gotoNextSubparser
deriving DecidableEq

inductive ParseMode where
  | delimiter
  | size
  | validator
  | connectionEnd
  | direct
  | directDelimiter
  | multiDelimiter
deriving DecidableEq

/-- What `setParseMode`, `setParseDelimiter`, `setParseMultiDelimiter` and
`setParseDataTargetSize` set. -/
structure ParseSettings where
  parseMode : ParseMode := .delimiter
  parseDelimiter : List UInt8 := [13, 10]
  parseMultiDelimiter : List (List UInt8) := []
  parseDataTargetSize : ℕ := 2 ^ 64 - 1
deriving DecidableEq

/-- The same mode and target size, and the same delimiter or delimiters, whichever of them
the mode looks for. -/
structure ParseSettings.Agree (st st' : ParseSettings) : Prop where
  parseMode : st'.parseMode = st.parseMode
  parseDataTargetSize : st'.parseDataTargetSize = st.parseDataTargetSize
  parseDelimiter : st.parseMode ≠ .multiDelimiter → st'.parseDelimiter = st.parseDelimiter
  parseMultiDelimiter : st.parseMode = .multiDelimiter →
    st'.parseMultiDelimiter = st.parseMultiDelimiter

theorem ParseSettings.Agree.trans {a b c : ParseSettings} (h : a.Agree b) (h' : b.Agree c) :
    a.Agree c where
  parseMode := h'.parseMode.trans h.parseMode
  parseDataTargetSize := h'.parseDataTargetSize.trans h.parseDataTargetSize
  parseDelimiter hm :=
    (h'.parseDelimiter (by rw [h.parseMode]; exact hm)).trans (h.parseDelimiter hm)
  parseMultiDelimiter hm :=
    (h'.parseMultiDelimiter (by rw [h.parseMode]; exact hm)).trans (h.parseMultiDelimiter hm)

/-- What a call of `parse()` is shown: the parsed buffer and `getFoundDelimiter()`. -/
structure Seen where
  parsedBuffer : List UInt8
  foundDelimiter : List UInt8
deriving DecidableEq

/-- A sub-parser whose concrete class has the state `σ`. -/
structure SubParser (σ : Type*) where
  /-- `m_unparsedBuffer`; its maximum size is the target size. -/
  unparsedBuffer : BChunks := {}
  /-- `m_parseMode`. -/
  parseMode : ParseMode := .delimiter
  /-- `m_parseDelimiter`. -/
  parseDelimiter : List UInt8 := [13, 10]
  /-- `m_parseMultiDelimiter`. -/
  parseMultiDelimiter : List (List UInt8) := []
  /-- `m_delimiterFound`. -/
  delimiterFound : List UInt8 := []
  /-- `m_parseStatus`. -/
  parseStatus : ParseStatus := .getMoreData
  /-- `m_streamEnded`. -/
  streamEnded : Bool := false
  derived : σ
  /-- What the calls of `parse()` were shown, in order. -/
  seen : List Seen := []
  /-- The number of memory blocks allocated so far. -/
  mallocs : ℕ := 0

/-- The answer to a write: the bytes to displace, `std::nullopt`, or an exception. -/
inductive Written where
  | bytes (n : ℕ)
  | nullopt
  | exception
deriving DecidableEq

/-- The count of a write that went through. -/
def Written.toOption : Written → Option ℕ
  | .bytes n => some n
  | .nullopt => none
  | .exception => none

/-- The virtual function `parse()` of a concrete sub-parser. -/
abbrev Parse (σ : Type*) := σ → ParseSettings → Seen → σ × ParseSettings × ParseStatus

namespace SubParser

variable {σ : Type*} (parse : Parse σ) (heap : ℕ → ℕ → UInt8)

def settings (p : SubParser σ) : ParseSettings where
  parseMode := p.parseMode
  parseDelimiter := p.parseDelimiter
  parseMultiDelimiter := p.parseMultiDelimiter
  parseDataTargetSize := p.unparsedBuffer.maxSize

/-- `setParseStatus(parse())` with the given bytes in the parsed buffer. -/
def callParse (p : SubParser σ) (parsedBuffer : List UInt8) : SubParser σ :=
  let shown : Seen := ⟨parsedBuffer, p.delimiterFound⟩
  let r := parse p.derived p.settings shown
  { p with
    derived := r.1
    unparsedBuffer := { p.unparsedBuffer with maxSize := r.2.1.parseDataTargetSize }
    parseMode := r.2.1.parseMode
    parseDelimiter := r.2.1.parseDelimiter
    parseMultiDelimiter := r.2.1.parseMultiDelimiter
    parseStatus := r.2.2
    seen := p.seen ++ [shown] }

/-- `m_unparsedBuffer.clear()`. -/
def clearUnparsed (p : SubParser σ) : SubParser σ :=
  { p with unparsedBuffer := p.unparsedBuffer.clear }

/-! ## Writing -/

/-- `appendToUnparsedBuffer`.  The buffer is private and never told to move to a file,
so the appended container stays in memory. -/
def appendToUnparsedBuffer (p : SubParser σ) (buf : List UInt8) : SubParser σ × Option ℕ :=
  let leftSize := p.unparsedBuffer.getSizeLeft
  if leftSize = 0 ∧ 0 < buf.length then (p, none)
  else
    let data := buf.take leftSize
    if data = [] then (p, some 0)
    else
      match p.unparsedBuffer.append false data with
      | none => (p.clearUnparsed, none)
      | some (c, bytesAppended) =>
        if bytesAppended = some data.length then ({ p with unparsedBuffer := c }, bytesAppended)
        else ({ p with unparsedBuffer := c.clear }, none)

/-- `parseByMultiDelimiter`. -/
def parseByMultiDelimiter (p : SubParser σ) (buf : List UInt8) : SubParser σ × Written :=
  let prevSize := p.unparsedBuffer.size
  match p.appendToUnparsedBuffer buf with
  | (p, none) => (p, .nullopt)
  | (p, some bytesAppended) =>
    match p.unparsedBuffer.findAny p.parseMultiDelimiter true 0 0 with
    | some (needlePos, needle) =>
      let p := { p with delimiterFound := needle }
      let p := (p.callParse parse (p.unparsedBuffer.bytes.take needlePos)).clearUnparsed
      (p, .bytes (subSizeT ((needlePos + p.delimiterFound.length) % 2 ^ 64) prevSize))
    | none =>
      let p := { p with delimiterFound := [] }
      if p.streamEnded then
        ((p.callParse parse p.unparsedBuffer.bytes).clearUnparsed, .bytes bytesAppended)
      else (p, .bytes bytesAppended)

/-- `parseByDelimiter`.  The count is computed with the delimiter that `parse()` left. -/
def parseByDelimiter (p : SubParser σ) (buf : List UInt8) : SubParser σ × Written :=
  let prevSize := p.unparsedBuffer.size
  match p.appendToUnparsedBuffer buf with
  | (p, none) => (p, .nullopt)
  | (p, some bytesAppended) =>
    match p.unparsedBuffer.find p.parseDelimiter true 0 0 with
    | some needlePos =>
      let p := (p.callParse parse (p.unparsedBuffer.bytes.take needlePos)).clearUnparsed
      (p, .bytes ((subSizeT needlePos prevSize + p.parseDelimiter.length) % 2 ^ 64))
    | none =>
      if p.streamEnded then
        ((p.callParse parse p.unparsedBuffer.bytes).clearUnparsed, .bytes bytesAppended)
      else (p, .bytes bytesAppended)

/-- `parseBySize`. -/
def parseBySize (p : SubParser σ) (buf : List UInt8) : SubParser σ × Written :=
  if buf = [] then
    ({ p with parseStatus := .gotoNextSubparser }.clearUnparsed, .bytes 0)
  else
    match p.appendToUnparsedBuffer buf with
    | (p, none) => (p, .nullopt)
    | (p, some bytesAppended) =>
      if p.unparsedBuffer.getSizeLeft = 0 then
        ((p.callParse parse p.unparsedBuffer.bytes).clearUnparsed, .bytes bytesAppended)
      else (p, .bytes bytesAppended)

/-- `parseByConnectionEnd`. -/
def parseByConnectionEnd (p : SubParser σ) (buf : List UInt8) : SubParser σ × Written :=
  match p.appendToUnparsedBuffer buf with
  | (p, none) => (p, .nullopt)
  | (p, some bytesAppended) =>
    if buf = [] then ((p.callParse parse p.unparsedBuffer.bytes).clearUnparsed, .bytes 0)
    else (p, .bytes bytesAppended)

/-- `parseDirect`.  `reduceMaxSizeBy` throws if `parse()` made the target size smaller
than what is in the buffer. -/
def parseDirect (p : SubParser σ) (buf : List UInt8) : SubParser σ × Written :=
  match p.appendToUnparsedBuffer buf with
  | (p, none) => (p, .nullopt)
  | (p, some bytesAppended) =>
    let p := p.callParse parse p.unparsedBuffer.bytes
    let curBufSize := p.unparsedBuffer.size
    let p := p.clearUnparsed
    if p.unparsedBuffer.maxSize < curBufSize then (p, .exception)
    else
      ({ p with
         unparsedBuffer :=
          { p.unparsedBuffer with maxSize := p.unparsedBuffer.maxSize - curBufSize } },
        .bytes bytesAppended)

/-- The memory block that the last `v` bytes of the buffer were copied to: what
`copyOut` wrote, then whatever the block contained. -/
def lastBytes (p : SubParser σ) (v block : ℕ) : List UInt8 :=
  let written := (p.unparsedBuffer.copyOut v (p.unparsedBuffer.size - v)).getD []
  written ++ ((List.range v).map (heap block)).drop written.length

/-- The loop of `getLastBytesInCommon` from `v` down, with the blocks allocated. -/
def lastBytesInCommonFrom (p : SubParser σ) (boundary : List UInt8) : ℕ → ℕ → ℕ × ℕ
  | 0, mallocs => (0, mallocs)
  | v + 1, mallocs =>
    if p.lastBytes heap (v + 1) mallocs = boundary.take (v + 1) then (v + 1, mallocs + 1)
    else lastBytesInCommonFrom p boundary v (mallocs + 1)

/-- `getLastBytesInCommon`. -/
def getLastBytesInCommon (p : SubParser σ) (boundary : List UInt8) : ℕ × ℕ :=
  p.lastBytesInCommonFrom heap boundary
    (min p.unparsedBuffer.size (subSizeT boundary.length 1)) p.mallocs

/-- `parseDirectDelimiter`. -/
def parseDirectDelimiter (p : SubParser σ) (buf : List UInt8) : SubParser σ × Written :=
  let prevSize := p.unparsedBuffer.size
  let p := { p with delimiterFound := [] }
  match p.appendToUnparsedBuffer buf with
  | (p, none) => (p, .nullopt)
  | (p, some bytesAppended) =>
    match p.unparsedBuffer.find p.parseDelimiter true 0 0 with
    | none =>
      let common := p.getLastBytesInCommon heap p.parseDelimiter
      let p := { p with mallocs := common.2 }
      if common.1 = 0 then
        ((p.callParse parse p.unparsedBuffer.bytes).clearUnparsed, .bytes bytesAppended)
      else
        let safe := p.unparsedBuffer.size - common.1
        let p := p.callParse parse (p.unparsedBuffer.bytes.take safe)
        ({ p with unparsedBuffer := (p.unparsedBuffer.displace safe).1 }, .bytes bytesAppended)
    | some delimPos =>
      let p := { p with delimiterFound := p.parseDelimiter }
      let p := if delimPos = 0 then p.clearUnparsed else p
      let p := (p.callParse parse (p.unparsedBuffer.bytes.take delimPos)).clearUnparsed
      (p, .bytes ((subSizeT delimPos prevSize + p.parseDelimiter.length) % 2 ^ 64))

/-- `writeIntoParser`; an empty write marks the end of the stream, and
`parseByValidator` is not implemented. -/
def writeIntoParser (p : SubParser σ) (buf : List UInt8) : SubParser σ × Written :=
  let p := if buf = [] then { p with streamEnded := true } else p
  match p.parseMode with
  | .delimiter => p.parseByDelimiter parse buf
  | .size => p.parseBySize parse buf
  | .validator => (p, .nullopt)
  | .directDelimiter => p.parseDirectDelimiter parse heap buf
  | .connectionEnd => p.parseByConnectionEnd parse buf
  | .multiDelimiter => p.parseByMultiDelimiter parse buf
  | .direct => p.parseDirect parse buf

/-- A write as the answer of a consumer that is fed a stream. -/
def write (p : SubParser σ) (buf : List UInt8) : SubParser σ × Option ℕ :=
  let r := p.writeIntoParser parse heap buf
  (r.1, r.2.toOption)

/-- `parse()` leaves the settings alone that the parse mode uses. -/
def KeepsSettings : Prop :=
  ∀ (d : σ) (st : ParseSettings) (s : Seen), st.Agree (parse d st s).2.1

/-! ## The buffer between writes -/

/-- Between two writes of a stream that goes on: the settings are the given ones, and the
buffer, with its own chunk limits and the target size, holds a counted sequence of
bytes that fits. -/
structure Holds (st : ParseSettings) (p : SubParser σ) : Prop where
  settings : st.Agree p.settings
  streamEnded : p.streamEnded = false
  limits : p.unparsedBuffer.clear = { maxSize := st.parseDataTargetSize }
  counted : p.unparsedBuffer.Counted
  chunks : p.unparsedBuffer.chunksVector.length ≤ p.unparsedBuffer.maxChunks
  size_le : p.unparsedBuffer.size ≤ st.parseDataTargetSize

variable {st : ParseSettings} {p : SubParser σ}

theorem Holds.maxSize (h : Holds st p) : p.unparsedBuffer.maxSize = st.parseDataTargetSize := by
  have := congrArg BChunks.maxSize h.limits
  exact this

theorem Holds.maxChunkSize (h : Holds st p) : p.unparsedBuffer.maxChunkSize = 64 * 1024 := by
  have := congrArg BChunks.maxChunkSize h.limits
  exact this

theorem Holds.inMemory (h : Holds st p) :
    p.unparsedBuffer.maxSizeInMemoryBeforeMovingToDisk = 0 := by
  have := congrArg BChunks.maxSizeInMemoryBeforeMovingToDisk h.limits
  exact this

theorem Holds.parseMode (h : Holds st p) : p.parseMode = st.parseMode := h.settings.parseMode

theorem Holds.parseDelimiter (h : Holds st p) (hmode : st.parseMode ≠ .multiDelimiter) :
    p.parseDelimiter = st.parseDelimiter := h.settings.parseDelimiter hmode

theorem Holds.parseMultiDelimiter (h : Holds st p) (hmode : st.parseMode = .multiDelimiter) :
    p.parseMultiDelimiter = st.parseMultiDelimiter := h.settings.parseMultiDelimiter hmode

theorem Holds.size_eq (h : Holds st p) :
    p.unparsedBuffer.size = p.unparsedBuffer.bytes.length := h.counted.size_eq

theorem Holds.getSizeLeft (h : Holds st p) :
    p.unparsedBuffer.getSizeLeft = st.parseDataTargetSize - p.unparsedBuffer.bytes.length := by
  have := h.size_le
  rw [BChunks.getSizeLeft, h.maxSize, if_neg (by omega), h.size_eq]

/-- The settings, the end mark and the limits survive a change of the buffer. -/
theorem Holds.withBuffer (h : Holds st p) {c : BChunks}
    (hc : BChunks.SameLimits c p.unparsedBuffer) (hcount : c.Counted)
    (hchunks : c.chunksVector.length ≤ c.maxChunks) (hsize : c.size ≤ st.parseDataTargetSize) :
    Holds st { p with unparsedBuffer := c } := by
  refine ⟨⟨h.parseMode, ?_, h.parseDelimiter, h.parseMultiDelimiter⟩, h.streamEnded, ?_, hcount,
    hchunks, hsize⟩
  · exact hc.maxSize.trans h.maxSize
  · have : c.clear = p.unparsedBuffer.clear := hc
    rw [← h.limits, ← this]

/-- The next write cannot be stored within the chunk limit of the buffer. -/
def ChunkLimit (p : SubParser σ) (buf : List UInt8) : Prop :=
  ¬ p.unparsedBuffer.HasChunks (buf.take p.unparsedBuffer.getSizeLeft).length

instance (p : SubParser σ) (w : List UInt8) : Decidable (p.ChunkLimit w) :=
  inferInstanceAs (Decidable (¬ _ ≤ _))

/-- A buffer at its target size refuses more data. -/
theorem appendToUnparsedBuffer_full {buf : List UInt8} (hbuf : buf ≠ [])
    (hleft : p.unparsedBuffer.getSizeLeft = 0) : p.appendToUnparsedBuffer buf = (p, none) := by
  unfold appendToUnparsedBuffer
  exact if_pos ⟨hleft, List.length_pos_iff.mpr hbuf⟩

theorem Holds.stores (h : Holds st p) (hM : st.parseDataTargetSize < 2 ^ 64) {buf : List UInt8}
    (hbuf : buf ≠ []) (hleft : p.unparsedBuffer.getSizeLeft ≠ 0) :
    p.unparsedBuffer.Stores (buf.take p.unparsedBuffer.getSizeLeft) := by
  have hle : (buf.take p.unparsedBuffer.getSizeLeft).length + p.unparsedBuffer.size ≤
      st.parseDataTargetSize := by
    rw [List.length_take, h.getSizeLeft, ← h.size_eq]
    have := h.size_le
    omega
  exact ⟨BChunks.take_ne_nil (by omega) hbuf, by omega, by rw [h.maxSize]; exact hle,
    Or.inl h.inMemory⟩

/-- A write beyond the chunk limit is refused. -/
theorem appendToUnparsedBuffer_chunkLimit (h : Holds st p)
    (hM : st.parseDataTargetSize < 2 ^ 64) {buf : List UInt8} (hbuf : buf ≠ [])
    (hleft : p.unparsedBuffer.getSizeLeft ≠ 0) (hlimit : p.ChunkLimit buf) :
    ∃ c, p.appendToUnparsedBuffer buf = ({ p with unparsedBuffer := c }, none) := by
  have hs := h.stores hM hbuf hleft
  obtain ⟨c, n, hc, hn, -⟩ := BChunks.append_short hs (by rw [h.maxChunkSize]; norm_num)
    h.chunks hlimit false
  refine ⟨c.clear, ?_⟩
  unfold appendToUnparsedBuffer
  rw [if_neg (fun hf => hleft hf.1)]
  simp only [if_neg hs.1, hc]
  rw [if_neg]
  simp only [Option.some.injEq]
  omega

/-- Otherwise as much of the write as the target size allows is appended. -/
theorem appendToUnparsedBuffer_stored (h : Holds st p) (hM : st.parseDataTargetSize < 2 ^ 64)
    {buf : List UInt8} (hbuf : buf ≠ []) (hleft : p.unparsedBuffer.getSizeLeft ≠ 0)
    (hlimit : ¬ p.ChunkLimit buf) :
    ∃ c, p.appendToUnparsedBuffer buf =
        ({ p with unparsedBuffer := c }, some (buf.take p.unparsedBuffer.getSizeLeft).length) ∧
      Holds st { p with unparsedBuffer := c } ∧
      c.bytes = p.unparsedBuffer.bytes ++ buf.take p.unparsedBuffer.getSizeLeft ∧
      c.chunksVector.length = p.unparsedBuffer.chunksVector.length +
        p.unparsedBuffer.chunksFor (buf.take p.unparsedBuffer.getSizeLeft).length ∧
      (p.unparsedBuffer.RepInv → c.RepInv) := by
  have hs := h.stores hM hbuf hleft
  have hfit : p.unparsedBuffer.HasChunks (buf.take p.unparsedBuffer.getSizeLeft).length :=
    Classical.not_not.mp hlimit
  obtain ⟨c, hc, hcount, hbytes, hsame, hlen, hrep⟩ := BChunks.append_fits h.counted hs
    (by rw [h.maxChunkSize]; norm_num) hfit false
  refine ⟨c, ?_, h.withBuffer hsame hcount ?_ ?_, hbytes, hlen, hrep⟩
  · unfold appendToUnparsedBuffer
    rw [if_neg (fun hf => hleft hf.1)]
    simp only [if_neg hs.1, hc, if_true]
  · rw [hlen, hsame.maxChunks]
    exact hfit
  · rw [hcount.size_eq, hbytes, List.length_append, ← h.size_eq]
    have := hs.2.2.1
    rw [h.maxSize] at this
    omega

/-- A `parse()` that keeps the settings leaves the buffer as it is and adds to what it has
been shown. -/
theorem Holds.callParse (h : Holds st p) (hkeep : KeepsSettings parse) (b : List UInt8) :
    Holds st (p.callParse parse b) ∧
      (p.callParse parse b).unparsedBuffer = p.unparsedBuffer ∧
      (p.callParse parse b).seen = p.seen ++ [⟨b, p.delimiterFound⟩] := by
  have hagree := hkeep p.derived p.settings ⟨b, p.delimiterFound⟩
  have hbuffer : (p.callParse parse b).unparsedBuffer = p.unparsedBuffer := by
    simp only [SubParser.callParse]
    rw [hagree.parseDataTargetSize]
    rfl
  refine ⟨⟨?_, h.streamEnded, ?_, ?_, ?_, ?_⟩, hbuffer, rfl⟩
  · exact h.settings.trans hagree
  all_goals rw [hbuffer]
  · exact h.limits
  · exact h.counted
  · exact h.chunks
  · exact h.size_le

theorem Holds.clearUnparsed (h : Holds st p) : Holds st p.clearUnparsed :=
  h.withBuffer rfl ((BChunks.repInv_clear _).counted (by simp [BChunks.clear]))
    (by simp [BChunks.clear]) (by simp [BChunks.clear, BChunks.size])

/-- Clearing the buffer after a call of `parse()` leaves an empty buffer with the same
settings. -/
theorem Holds.parsed (h : Holds st p) (hkeep : KeepsSettings parse) (b : List UInt8) :
    Holds st (p.callParse parse b).clearUnparsed ∧
      (p.callParse parse b).clearUnparsed.unparsedBuffer = p.unparsedBuffer.clear ∧
      (p.callParse parse b).clearUnparsed.seen = p.seen ++ [⟨b, p.delimiterFound⟩] ∧
      (p.callParse parse b).clearUnparsed.delimiterFound = p.delimiterFound := by
  obtain ⟨h1, h2, h3⟩ := h.callParse parse hkeep b
  exact ⟨h1.clearUnparsed, congrArg BChunks.clear h2, h3, rfl⟩

/-! ## The part of the buffer that may become a delimiter -/

/-- With right offsets the bytes compared are the last bytes of the buffer, whatever the
memory block contained. -/
theorem lastBytes_eq (hsound : p.unparsedBuffer.Sound) {v : ℕ} (hv : v ≤ p.unparsedBuffer.size)
    (block : ℕ) : p.lastBytes heap v block =
      p.unparsedBuffer.bytes.drop (p.unparsedBuffer.bytes.length - v) := by
  have hlen := hsound.1.length_bytes
  have hcopy := hsound.copyOut (show p.unparsedBuffer.size - v + v ≤ p.unparsedBuffer.size by omega)
  have htake : (p.unparsedBuffer.bytes.drop (p.unparsedBuffer.size - v)).take v =
      p.unparsedBuffer.bytes.drop (p.unparsedBuffer.size - v) :=
    List.take_of_length_le (by rw [List.length_drop]; omega)
  have hrest : ((List.range v).map (heap block)).drop
      (p.unparsedBuffer.bytes.drop (p.unparsedBuffer.size - v)).length = [] :=
    List.drop_eq_nil_of_le (by
      rw [List.length_map, List.length_range, List.length_drop]
      omega)
  simp only [lastBytes, hcopy, htake, Option.getD_some, hrest, List.append_nil, hlen]

theorem lastBytesInCommonFrom_eq (hsound : p.unparsedBuffer.Sound) (d : List UInt8) (v mallocs : ℕ)
    (hv : v ≤ p.unparsedBuffer.size) :
    (p.lastBytesInCommonFrom heap d v mallocs).1 =
      Nat.findGreatest (fun v => p.unparsedBuffer.bytes.drop
        (p.unparsedBuffer.bytes.length - v) = d.take v) v := by
  induction v generalizing mallocs with
  | zero => rfl
  | succ v ih =>
      rw [Nat.findGreatest_succ]
      unfold lastBytesInCommonFrom
      rw [lastBytes_eq heap hsound hv]
      split
      · rfl
      · exact ih (mallocs + 1) (by omega)

/-- With right offsets `getLastBytesInCommon` is the longest part at the end of the buffer
that may still become the delimiter. -/
theorem getLastBytesInCommon_eq (hsound : p.unparsedBuffer.Sound) {d : List UInt8} (hd : d ≠ [])
    (hd64 : d.length < 2 ^ 64) :
    (p.getLastBytesInCommon heap d).1 = Occurrence.overlap d p.unparsedBuffer.bytes := by
  have hlen := hsound.1.length_bytes
  have hpos := List.length_pos_iff.mpr hd
  rw [getLastBytesInCommon, lastBytesInCommonFrom_eq heap hsound d _ _ (Nat.min_le_left _ _),
    Occurrence.overlap, subSizeT_of_le (by omega) hd64, hlen]

/-! ## Starting to parse -/

/-- A fresh sub-parser with given settings. -/
def start (st : ParseSettings) (derived : σ) : SubParser σ where
  unparsedBuffer := { maxSize := st.parseDataTargetSize }
  parseMode := st.parseMode
  parseDelimiter := st.parseDelimiter
  parseMultiDelimiter := st.parseMultiDelimiter
  derived := derived

/-- The state with an empty buffer. -/
theorem holds_of_cleared {st : ParseSettings} {p : SubParser σ} (hset : st.Agree p.settings)
    (hended : p.streamEnded = false)
    (hbuffer : p.unparsedBuffer = { maxSize := st.parseDataTargetSize }) : Holds st p where
  settings := hset
  streamEnded := hended
  limits := by rw [hbuffer]; rfl
  counted := by
    rw [hbuffer]
    exact (BChunks.repInv_clear { maxSize := st.parseDataTargetSize }).counted (by
      simp [BChunks.clear])
  chunks := by simp [hbuffer]
  size_le := by simp [hbuffer, BChunks.size]

theorem holds_start (st : ParseSettings) (derived : σ) : Holds st (start st derived) :=
  holds_of_cleared ⟨rfl, rfl, fun _ => rfl, fun _ => rfl⟩ rfl rfl

/-- The consumed count of a delimiter that ends in the new data: the subtraction wraps
when the delimiter starts in the old data, and the addition undoes it. -/
theorem consumed_eq {pos prev len : ℕ} (h : prev ≤ pos + len) (hlt : pos + len < 2 ^ 64) :
    (subSizeT pos prev + len) % 2 ^ 64 = pos + len - prev := by
  unfold subSizeT
  omega

/-- A concrete sub-parser that is shown data and does nothing with it. -/
def idle : Parse Unit := fun d st _ => (d, st, .getMoreData)

theorem keepsSettings_idle : KeepsSettings idle :=
  fun _ _ _ => ⟨rfl, rfl, fun _ => rfl, fun _ => rfl⟩

end SubParser

end Mantids
