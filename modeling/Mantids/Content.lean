/-
# HTTP bodies

`HTTP::Content` (`Protocol_HTTP/common_content.cpp`) is the sub-parser that receives the body
of a message and writes it to `m_outStream`, by default a `B_Chunks`;
`HTTP::ContentChunkedTransformer` (`Protocol_HTTP/common_content_chunked_subparser.cpp`) is
what the other side sends a chunked body through.

* `toUInt32` — `B_Base::toUInt32` in base 16, by `strtoul`;
* `Content.parse` — the virtual function of the sub-parser, mode by mode;
* `Content.setTransmitionMode`, `setContentLenSize` — how a body starts;
* `Content.offer` — one round of `Parser::parseData` with this sub-parser;
* `ContentChunkedTransformer` — the encoder of chunked bodies.

`parse()` reads the buffer of the sub-parser as well (`getUnparsedDataSize`, and the chunks
that `appendTo` copies one by one), so the buffer as it is after the new data was appended is
a parameter of it.  An exception of the output stream ends the write (`thrown`).
-/
import Mantids.Stream
import Mantids.SubParser

namespace Mantids

/-! ## Numbers in base 16 -/

def isspace (c : UInt8) : Bool := c == 32 || (9 ≤ c && c ≤ 13)

def isxdigit (c : UInt8) : Bool :=
  (48 ≤ c && c ≤ 57) || (65 ≤ c && c ≤ 70) || (97 ≤ c && c ≤ 102)

/-- The value of a digit in base 16. -/
def xdigitValue (c : UInt8) : ℕ :=
  if c ≤ 57 then c.toNat - 48 else if c ≤ 70 then c.toNat - 55 else c.toNat - 87

/-- A `0x` in front of a digit is skipped. -/
def skipHexPrefix : List UInt8 → List UInt8
  | 48 :: x :: d :: rest =>
    if (x = 120 ∨ x = 88) ∧ isxdigit d then d :: rest else 48 :: x :: d :: rest
  | s => s

/-- `strtoul` in base 16 when it converts all of a string: white space, a sign and `0x` are
skipped, and a number that does not fit becomes `ULONG_MAX`. -/
def strtoul (s : List UInt8) : Option ℕ :=
  let s := s.dropWhile isspace
  let negative := s.head? == some 45
  let s := if s.head? = some 45 ∨ s.head? = some 43 then s.tail else s
  let s := skipHexPrefix s
  if s = [] ∨ s.all isxdigit = false then none
  else
    let v := s.foldl (fun v c => v * 16 + xdigitValue c) 0
    some (if 2 ^ 64 ≤ v then 2 ^ 64 - 1 else if negative then (2 ^ 64 - v) % 2 ^ 64 else v)

/-- `B_Base::toUInt32(16)`: the text up to the first zero byte, as 32 bits. -/
def toUInt32 (s : List UInt8) : Option ℕ := (strtoul (s.takeWhile (· != 0))).map (· % 2 ^ 32)

/-! ## The sub-parser -/

/-- `eProcessingMode`. -/
inductive ProcessingMode where
  | chunkSize
  | chunkData
  | chunkCRLF
  | contentLength
  | connectionClose
deriving DecidableEq

/-- `eTransmitionMode`. -/
inductive TransmitionMode where
  | chunks
  | contentLength
  | connectionClose
deriving DecidableEq

/-- `setParseStatus`. -/
def SubParser.setParseStatus {σ : Type*} (p : SubParser σ) (value : ParseStatus) : SubParser σ :=
  { p with parseStatus := value }

@[simp] theorem SubParser.derived_setParseStatus {σ : Type*} (p : SubParser σ)
    (value : ParseStatus) : (p.setParseStatus value).derived = p.derived := rfl

@[simp] theorem SubParser.unparsedBuffer_setParseStatus {σ : Type*} (p : SubParser σ)
    (value : ParseStatus) : (p.setParseStatus value).unparsedBuffer = p.unparsedBuffer := rfl

/-- `setParseMode`. -/
def ParseSettings.setParseMode (st : ParseSettings) (value : ParseMode) : ParseSettings :=
  { st with
    parseMode := value
    parseDataTargetSize := if value = .direct then 2 ^ 64 - 1 else st.parseDataTargetSize }

/-- The fields of `HTTP::Content` that parsing uses. -/
structure Content where
  /-- `m_outStream`. -/
  outStream : StreamableChunks := {}
  /-- `m_transmitionMode`. -/
  transmitionMode : TransmitionMode := .connectionClose
  /-- `m_currentMode`. -/
  currentMode : ProcessingMode := .contentLength
  /-- `m_securityMaxPostDataSize`. -/
  securityMaxPostDataSize : ℕ := 17 * 1024 * 1024
  /-- `m_currentContentLengthSize`. -/
  currentContentLengthSize : ℕ := 0
  /-- `m_securityMaxHttpChunkSize`, a `uint32_t`. -/
  securityMaxHttpChunkSize : ℕ := 16 * 1024 * 1024
  /-- The output stream threw. -/
  thrown : Bool := false
deriving DecidableEq

namespace Content

/-- `parseHttpChunkSize`; `UINT32_MAX` stands for an error. -/
def parseHttpChunkSize (c : Content) (parsedBuffer : List UInt8) : ℕ :=
  match toUInt32 parsedBuffer with
  | none => 2 ^ 32 - 1
  | some parsedSize =>
    if c.securityMaxHttpChunkSize < parsedSize then 2 ^ 32 - 1 else parsedSize

/-- The content with the output stream that a write left, or the mark that it threw. -/
def withOutStream (c : Content) (o : Option StreamableChunks) : Content :=
  match o with
  | none => { c with thrown := true }
  | some o => { c with outStream := o }

/-- `getParsedBuffer()->appendTo(*m_outStream)`. -/
def appendToOutStream (c : Content) (unparsedBuffer : BChunks) (parsedBuffer : List UInt8) :
    Content :=
  c.withOutStream ((unparsedBuffer.appendTo parsedBuffer.length c.outStream).map Prod.fst)

/-- `m_outStream->writeEOF()`, unless the stream threw before. -/
def writeEOFToOutStream (c : Content) : Content :=
  if c.thrown then c else c.withOutStream (c.outStream.writeEOF.map Prod.fst)

/-- `parse()`. -/
def parse (unparsedBuffer : BChunks) : Parse Content := fun c st shown =>
  match c.currentMode with
  | .chunkSize =>
    let targetChunkSize := c.parseHttpChunkSize shown.parsedBuffer
    if targetChunkSize = 2 ^ 32 - 1 then (c, st, .error)
    else if 0 < targetChunkSize then
      ({ c with currentMode := .chunkData },
        { st.setParseMode .size with parseDataTargetSize := targetChunkSize }, .getMoreData)
    else (c.writeEOFToOutStream, st, .gotoNextSubparser)
  | .chunkData =>
    (({ c with currentMode := .chunkCRLF }).appendToOutStream unparsedBuffer shown.parsedBuffer,
      { st.setParseMode .size with parseDataTargetSize := 2 }, .getMoreData)
  | .chunkCRLF =>
    ({ c with currentMode := .chunkSize },
      { st.setParseMode .delimiter with
        parseDelimiter := [13, 10], parseDataTargetSize := 1 * 1024 },
      .getMoreData)
  | .contentLength =>
    let c := c.appendToOutStream unparsedBuffer shown.parsedBuffer
    if 0 < unparsedBuffer.getSizeLeft then (c, st, .getMoreData)
    else (c.writeEOFToOutStream, st, .gotoNextSubparser)
  | .connectionClose =>
    if shown.parsedBuffer ≠ [] then
      (c.appendToOutStream unparsedBuffer shown.parsedBuffer, st, .getMoreData)
    else (c.writeEOFToOutStream, st, .gotoNextSubparser)

/-- The settings of a sub-parser, replaced by what the setters make of them. -/
def applySettings (p : SubParser Content) (st : ParseSettings) : SubParser Content :=
  { p with
    parseMode := st.parseMode
    parseDelimiter := st.parseDelimiter
    parseMultiDelimiter := st.parseMultiDelimiter
    unparsedBuffer := { p.unparsedBuffer with maxSize := st.parseDataTargetSize } }

/-- `setTransmitionMode`. -/
def setTransmitionMode (p : SubParser Content) (value : TransmitionMode) : SubParser Content :=
  match value with
  | .connectionClose =>
    applySettings
      { p with derived :=
          { p.derived with transmitionMode := value, currentMode := .connectionClose } }
      { p.settings.setParseMode .direct with
        parseDataTargetSize := p.derived.securityMaxPostDataSize }
  | .chunks =>
    applySettings
      { p with derived := { p.derived with transmitionMode := value, currentMode := .chunkSize } }
      { p.settings.setParseMode .delimiter with
        parseDelimiter := [13, 10], parseDataTargetSize := 64 }
  | .contentLength =>
    applySettings
      { p with derived :=
          { p.derived with transmitionMode := value, currentMode := .contentLength } }
      (p.settings.setParseMode .direct)

/-- `setContentLenSize`. -/
def setContentLenSize (p : SubParser Content) (contentLengthSize : ℕ) :
    SubParser Content × Bool :=
  if p.derived.securityMaxPostDataSize < contentLengthSize then
    (applySettings { p with derived := { p.derived with currentContentLengthSize := 0 } }
      { p.settings with parseDataTargetSize := 0 }, false)
  else
    (applySettings
      { p with derived := { p.derived with currentContentLengthSize := contentLengthSize } }
      { p.settings with parseDataTargetSize := contentLengthSize }, true)

variable (heap : ℕ → ℕ → UInt8)

/-- `writeIntoParser`, apart from exceptions of the output stream. -/
def subParserWrite (p : SubParser Content) (buf : List UInt8) : SubParser Content × Written :=
  p.writeIntoParser (parse (p.appendToUnparsedBuffer buf).1.unparsedBuffer) heap buf

/-- `writeIntoParser`. -/
def writeIntoParser (p : SubParser Content) (buf : List UInt8) : SubParser Content × Written :=
  let r := subParserWrite heap p buf
  if r.1.derived.thrown then (r.1, .exception) else r

/-- One round of `parseData`: the bytes that the sub-parser took, or that parsing ends here. -/
def offer (p : SubParser Content) (buf : List UInt8) : SubParser Content × Option ℕ :=
  let r := writeIntoParser heap (p.setParseStatus .getMoreData) buf
  (r.1, if r.1.parseStatus = .error then none else r.2.toOption)

/-- A round goes on unless `parse()` reports an error or the output stream throws. -/
theorem offer_eq {p p' : SubParser Content} {buf : List UInt8} {n : Written}
    (h : subParserWrite heap (p.setParseStatus .getMoreData) buf = (p', n)) :
    offer heap p buf =
      (p', if p'.parseStatus = .error ∨ p'.derived.thrown = true then none else n.toOption) := by
  simp only [offer, writeIntoParser, h]
  cases hthrown : p'.derived.thrown <;> simp [Written.toOption]

/-- The sub-parser asked for the next one. -/
def finished (p : SubParser Content) : Bool := p.parseStatus == .gotoNextSubparser

/-- A fresh `Content` with its two limits. -/
def fresh (maxPostDataSize maxHttpChunkSize : ℕ) : SubParser Content where
  derived :=
    { securityMaxPostDataSize := maxPostDataSize, securityMaxHttpChunkSize := maxHttpChunkSize }

end Content

/-! ## The buffer as pieces of data -/

namespace SubParser

variable {σ : Type*} {st : ParseSettings} {p : SubParser σ}

/-- The chunks of the buffer are within the limit on their size. -/
def SmallChunks (p : SubParser σ) : Prop :=
  ∀ b ∈ p.unparsedBuffer.chunksVector, b.data.length ≤ 64 * 1024

theorem Holds.smallChunks_append (h : Holds st p) (hsmall : p.SmallChunks) (buf : List UInt8) :
    (p.appendToUnparsedBuffer buf).1.SmallChunks := by
  unfold appendToUnparsedBuffer
  simp only
  split
  · exact hsmall
  split
  · exact hsmall
  split
  · exact fun b hb => absurd hb List.not_mem_nil
  · rename_i c n happ
    have hc := BChunks.small_of_append happ h.chunks (by rw [h.maxChunkSize]; exact hsmall)
    rw [h.maxChunkSize] at hc
    split
    · exact hc
    · exact fun b hb => absurd hb List.not_mem_nil

theorem Holds.setParseStatus (h : Holds st p) (value : ParseStatus) :
    Holds st (p.setParseStatus value) :=
  ⟨⟨h.settings.parseMode, h.settings.parseDataTargetSize, h.settings.parseDelimiter,
    h.settings.parseMultiDelimiter⟩, h.streamEnded, h.limits, h.counted, h.chunks, h.size_le⟩

/-- A call of `parse()` that leaves the settings alone. -/
theorem callParse_of_settings {parse : Parse σ} {b : List UInt8}
    (hst : (parse p.derived p.settings ⟨b, p.delimiterFound⟩).2.1 = p.settings) :
    p.callParse parse b =
      { p with
        derived := (parse p.derived p.settings ⟨b, p.delimiterFound⟩).1
        parseStatus := (parse p.derived p.settings ⟨b, p.delimiterFound⟩).2.2
        seen := p.seen ++ [⟨b, p.delimiterFound⟩] } := by
  simp only [callParse, hst]
  rfl

/-- A write in `PARSE_MODE_DIRECT` that is stored and leaves the settings alone. -/
theorem writeIntoParser_direct {parse : Parse σ} (heap : ℕ → ℕ → UInt8) {buf : List UInt8}
    {c : BChunks} {n : ℕ} (hmode : p.parseMode = .direct) (hbuf : buf ≠ [])
    (happ : p.appendToUnparsedBuffer buf = ({ p with unparsedBuffer := c }, some n))
    (hmax : c.maxSize = p.unparsedBuffer.maxSize) (hsize : c.size ≤ c.maxSize)
    (hst : (parse p.derived p.settings ⟨c.bytes, p.delimiterFound⟩).2.1 = p.settings) :
    p.writeIntoParser parse heap buf =
      ({ p with
          derived := (parse p.derived p.settings ⟨c.bytes, p.delimiterFound⟩).1
          parseStatus := (parse p.derived p.settings ⟨c.bytes, p.delimiterFound⟩).2.2
          seen := p.seen ++ [⟨c.bytes, p.delimiterFound⟩]
          unparsedBuffer := { c.clear with maxSize := c.maxSize - c.size } }, .bytes n) := by
  have hq : ({ p with unparsedBuffer := c } : SubParser σ).settings = p.settings := by
    simp only [settings, hmax]
  have hcall := @callParse_of_settings σ { p with unparsedBuffer := c } parse c.bytes
    (by rw [hq]; exact hst)
  rw [hq] at hcall
  have hdirect : p.writeIntoParser parse heap buf = p.parseDirect parse buf := by
    simp only [writeIntoParser, if_neg hbuf, hmode]
  rw [hdirect, parseDirect, happ]
  simp only
  rw [hcall]
  simp only [clearUnparsed]
  exact if_neg (Nat.not_lt.mpr hsize)

/-- What `parse()` leaves behind when the buffer is cleared after it. -/
theorem Holds.callParse_clear (h : Holds st p) (parse : Parse σ) (b : List UInt8) :
    Holds (parse p.derived p.settings ⟨b, p.delimiterFound⟩).2.1
        (p.callParse parse b).clearUnparsed ∧
      (p.callParse parse b).clearUnparsed.unparsedBuffer =
        { maxSize :=
          (parse p.derived p.settings ⟨b, p.delimiterFound⟩).2.1.parseDataTargetSize } := by
  have hbuffer : (p.callParse parse b).clearUnparsed.unparsedBuffer = { maxSize :=
      (parse p.derived p.settings ⟨b, p.delimiterFound⟩).2.1.parseDataTargetSize } := by
    have hclear := congrArg (fun c : BChunks => { c with maxSize :=
      (parse p.derived p.settings ⟨b, p.delimiterFound⟩).2.1.parseDataTargetSize }) h.limits
    exact hclear
  refine ⟨⟨⟨rfl, rfl, fun _ => rfl, fun _ => rfl⟩, h.streamEnded, ?_, ?_, ?_, ?_⟩, hbuffer⟩
  all_goals rw [hbuffer]
  · rfl
  · exact ⟨by simp, rfl, by norm_num⟩
  · simp
  · simp [BChunks.size]

/-- A write in `PARSE_MODE_SIZE` that is stored. -/
theorem writeIntoParser_size {parse : Parse σ} (heap : ℕ → ℕ → UInt8) {buf : List UInt8}
    {c : BChunks} {n : ℕ} (hmode : p.parseMode = .size) (hbuf : buf ≠ [])
    (happ : p.appendToUnparsedBuffer buf = ({ p with unparsedBuffer := c }, some n)) :
    p.writeIntoParser parse heap buf =
      if c.getSizeLeft = 0 then
        ((({ p with unparsedBuffer := c } : SubParser σ).callParse parse c.bytes).clearUnparsed,
          .bytes n)
      else ({ p with unparsedBuffer := c }, .bytes n) := by
  have hsize : p.writeIntoParser parse heap buf = p.parseBySize parse buf := by
    simp only [writeIntoParser, if_neg hbuf, hmode]
  rw [hsize, parseBySize, if_neg hbuf, happ]

/-- A write in `PARSE_MODE_DELIMITER` that is stored. -/
theorem writeIntoParser_delimiter {parse : Parse σ} (heap : ℕ → ℕ → UInt8) {buf : List UInt8}
    {c : BChunks} {n : ℕ} (hmode : p.parseMode = .delimiter) (hbuf : buf ≠ [])
    (hended : p.streamEnded = false)
    (happ : p.appendToUnparsedBuffer buf = ({ p with unparsedBuffer := c }, some n)) :
    p.writeIntoParser parse heap buf =
      match c.find p.parseDelimiter true 0 0 with
      | some pos =>
        let q := (({ p with unparsedBuffer := c } : SubParser σ).callParse parse
          (c.bytes.take pos)).clearUnparsed
        (q, .bytes ((subSizeT pos p.unparsedBuffer.size + q.parseDelimiter.length) % 2 ^ 64))
      | none => ({ p with unparsedBuffer := c }, .bytes n) := by
  have hdelim : p.writeIntoParser parse heap buf = p.parseByDelimiter parse buf := by
    simp only [writeIntoParser, if_neg hbuf, hmode]
  rw [hdelim, parseByDelimiter, happ]
  dsimp only
  cases c.find p.parseDelimiter true 0 0 with
  | some pos => rfl
  | none => exact if_neg (by rw [hended]; exact Bool.false_ne_true)

/-- A write in `PARSE_MODE_MULTIDELIMITER` that brings a delimiter. -/
theorem writeIntoParser_multiDelimiter_found {parse : Parse σ} (heap : ℕ → ℕ → UInt8)
    {buf d : List UInt8} {c : BChunks} {n pos : ℕ} (hmode : p.parseMode = .multiDelimiter)
    (hbuf : buf ≠ [])
    (happ : p.appendToUnparsedBuffer buf = ({ p with unparsedBuffer := c }, some n))
    (hfind : c.findAny p.parseMultiDelimiter true 0 0 = some (pos, d)) :
    p.writeIntoParser parse heap buf =
      ((({ p with unparsedBuffer := c, delimiterFound := d } : SubParser σ).callParse parse
          (c.bytes.take pos)).clearUnparsed,
        .bytes (subSizeT ((pos + d.length) % 2 ^ 64) p.unparsedBuffer.size)) := by
  have hmulti : p.writeIntoParser parse heap buf = p.parseByMultiDelimiter parse buf := by
    simp only [writeIntoParser, if_neg hbuf, hmode]
  rw [hmulti, parseByMultiDelimiter, happ]
  simp only [hfind]
  rfl

/-- One that does not. -/
theorem writeIntoParser_multiDelimiter_none {parse : Parse σ} (heap : ℕ → ℕ → UInt8)
    {buf : List UInt8} {c : BChunks} {n : ℕ} (hmode : p.parseMode = .multiDelimiter)
    (hbuf : buf ≠ []) (hended : p.streamEnded = false)
    (happ : p.appendToUnparsedBuffer buf = ({ p with unparsedBuffer := c }, some n))
    (hfind : c.findAny p.parseMultiDelimiter true 0 0 = none) :
    p.writeIntoParser parse heap buf =
      ({ p with unparsedBuffer := c, delimiterFound := [] }, .bytes n) := by
  have hmulti : p.writeIntoParser parse heap buf = p.parseByMultiDelimiter parse buf := by
    simp only [writeIntoParser, if_neg hbuf, hmode]
  rw [hmulti, parseByMultiDelimiter, happ]
  simp only [hfind, hended, Bool.false_eq_true, if_false]

theorem appendToUnparsedBuffer_nil (p : SubParser σ) :
    p.appendToUnparsedBuffer [] = (p, some 0) := by
  simp [appendToUnparsedBuffer]

/-- The end of the stream in `PARSE_MODE_MULTIDELIMITER`, when there is no delimiter. -/
theorem writeIntoParser_multiDelimiter_ended {parse : Parse σ} (heap : ℕ → ℕ → UInt8)
    (hmode : p.parseMode = .multiDelimiter)
    (hfind : p.unparsedBuffer.findAny p.parseMultiDelimiter true 0 0 = none) :
    p.writeIntoParser parse heap [] =
      ((({ p with streamEnded := true, delimiterFound := [] } : SubParser σ).callParse parse
        p.unparsedBuffer.bytes).clearUnparsed, .bytes 0) := by
  have hmulti : p.writeIntoParser parse heap [] =
      ({ p with streamEnded := true } : SubParser σ).parseByMultiDelimiter parse [] := by
    simp only [writeIntoParser, if_true, hmode]
  rw [hmulti, parseByMultiDelimiter, appendToUnparsedBuffer_nil]
  simp only [hfind, if_true]

/-- A write that is not stored. -/
theorem writeIntoParser_refused {parse : Parse σ} (heap : ℕ → ℕ → UInt8) {buf : List UInt8}
    (hmode : p.parseMode = .size ∨ p.parseMode = .delimiter ∨ p.parseMode = .direct)
    (hbuf : buf ≠ []) (happ : (p.appendToUnparsedBuffer buf).2 = none) :
    (p.writeIntoParser parse heap buf).2 = .nullopt := by
  rcases h : p.appendToUnparsedBuffer buf with ⟨q, n⟩
  rw [h] at happ
  rcases hmode with hmode | hmode | hmode
  · simp only [writeIntoParser, if_neg hbuf, hmode, parseBySize, h, show n = none from happ]
  · simp only [writeIntoParser, if_neg hbuf, hmode, parseByDelimiter, h, show n = none from happ]
  · simp only [writeIntoParser, if_neg hbuf, hmode, parseDirect, h, show n = none from happ]

/-- No more chunks than bytes. -/
theorem Holds.chunks_le (h : Holds st p) :
    p.unparsedBuffer.chunksVector.length ≤ p.unparsedBuffer.bytes.length := by
  rw [BChunks.length_bytes]
  have hne := h.counted.nonempty
  generalize p.unparsedBuffer.chunksVector = cs at hne
  induction cs with
  | nil => simp
  | cons b cs ih =>
      have hb := BChunks.size_pos (hne b (List.mem_cons_self ..))
      have := ih (fun b' hb' => hne b' (List.mem_cons_of_mem _ hb'))
      rw [List.length_cons, BChunks.sizes_cons]
      omega

/-- A chunk holds a byte at least, so that a buffer of 256 KiB does not run out of chunks. -/
theorem Holds.not_chunkLimit (h : Holds st p) (hsmall : st.parseDataTargetSize ≤ 128 * 1024)
    (buf : List UInt8) : ¬ p.ChunkLimit buf := by
  have hmax : p.unparsedBuffer.maxChunks = 256 * 1024 := congrArg BChunks.maxChunks h.limits
  have hchunks := h.chunks_le
  have hsize := h.size_le
  have hlen := List.length_take_le p.unparsedBuffer.getSizeLeft buf
  rw [h.size_eq] at hsize
  rw [h.getSizeLeft] at hlen
  rw [ChunkLimit, not_not, BChunks.HasChunks, BChunks.chunksFor, h.maxChunkSize, hmax,
    h.getSizeLeft]
  omega

/-- A buffer is copied to a stream in small pieces. -/
theorem Holds.smallPieces (h : Holds st p) (hsmall : p.SmallChunks) :
    StreamableChunks.SmallPieces (p.unparsedBuffer.chunksVector.map (·.data)) := by
  intro d hd
  obtain ⟨b, hb, rfl⟩ := List.mem_map.mp hd
  exact ⟨h.counted.nonempty b hb, hsmall b hb⟩

end SubParser

/-! ## The encoder of chunked bodies -/

/-- A digit of `%X`. -/
def hexDigit (d : ℕ) : UInt8 := if d < 10 then UInt8.ofNat (48 + d) else UInt8.ofNat (55 + d)

/-- `%X` of an `unsigned int`. -/
def printHex (n : ℕ) : List UInt8 :=
  if n % 2 ^ 32 = 0 then [48] else ((Nat.digits 16 (n % 2 ^ 32)).reverse).map hexDigit

namespace ContentChunkedTransformer

/-- `write` of some data at `m_pos`: what goes upstream and the next `m_pos`.  The upstream
object takes everything. -/
def write (pos : ℕ) (buf : List UInt8) : List UInt8 × ℕ :=
  if buf = [] then (if pos = 0 then [48, 13, 10, 13, 10] else [13, 10, 48, 13, 10, 13, 10], pos)
  else
    ((if pos = 0 then [] else [13, 10]) ++ printHex buf.length ++ [13, 10] ++ buf,
      (pos + buf.length) % 2 ^ 64)

/-- The bytes that a list of writes produces, with the end of the stream behind them. -/
def encode (pos : ℕ) : List (List UInt8) → List UInt8
  | [] => (write pos []).1
  | d :: ds => (write pos d).1 ++ encode (write pos d).2 ds

end ContentChunkedTransformer

end Mantids
