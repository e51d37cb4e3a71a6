/-
# Bodies with a length

With a `Content-Length` the sub-parser is in `PARSE_MODE_DIRECT`, and what is left of the
length is the maximum size of its buffer: a write is cut to it, shown to `parse()` at once,
and taken off it afterwards.

`contentLength_delivered_iff` says when the body arrives: exactly if the writes bring its
bytes in no more stretches of 64 KiB than the output stream has room for chunks.
-/
import Mantids.Content

namespace Mantids

open Feed StreamableChunks

namespace Content

variable (heap : ℕ → ℕ → UInt8) {p : SubParser Content} {w : List UInt8} {left : ℕ}

/-! ## One write -/

/-- A body of which some bytes are still to come. -/
structure Receiving (p : SubParser Content) (left : ℕ) : Prop where
  parseMode : p.parseMode = .direct
  streamEnded : p.streamEnded = false
  unparsedBuffer : p.unparsedBuffer = { maxSize := left }
  currentMode : p.derived.currentMode = .contentLength
  thrown : p.derived.thrown = false

theorem Receiving.holds (h : Receiving p left) : SubParser.Holds p.settings p where
  settings := ⟨rfl, rfl, fun _ => rfl, fun _ => rfl⟩
  streamEnded := h.streamEnded
  limits := by
    have hmax : p.settings.parseDataTargetSize = left := by
      simp [SubParser.settings, h.unparsedBuffer]
    rw [hmax, h.unparsedBuffer]
    rfl
  counted := by
    rw [h.unparsedBuffer]
    exact (BChunks.repInv_clear { maxSize := left }).counted (by simp [BChunks.clear])
  chunks := by simp [h.unparsedBuffer]
  size_le := by simp [h.unparsedBuffer, BChunks.size]

theorem Receiving.getSizeLeft (h : Receiving p left) : p.unparsedBuffer.getSizeLeft = left := by
  simp [h.unparsedBuffer, BChunks.getSizeLeft, BChunks.size]

theorem Receiving.chunkLimit_iff (h : Receiving p left) :
    p.ChunkLimit w ↔ 256 * 1024 < stretches (w.take left).length := by
  rw [SubParser.ChunkLimit, BChunks.HasChunks, h.getSizeLeft, Nat.not_le, h.unparsedBuffer,
    BChunks.chunksFor, List.length_nil, Nat.zero_add]
  rfl

/-- A write that fits is stored, shown to `parse()` and taken off what is left. -/
theorem subParserWrite_receiving (h : Receiving p left) (hpos : 0 < left) (h64 : left < 2 ^ 64)
    (hw : w ≠ []) (hfit : stretches (w.take left).length ≤ 256 * 1024) :
    ∃ c p', SmallPieces (c.chunksVector.map (·.data)) ∧ c.Counted ∧ c.bytes = w.take left ∧
      c.chunksVector.length = stretches (w.take left).length ∧ c.maxSize = left ∧
      subParserWrite heap p w = (p', .bytes (w.take left).length) ∧ p'.parseMode = .direct ∧
      p'.streamEnded = false ∧
      p'.unparsedBuffer = { maxSize := left - (w.take left).length } ∧
      p'.derived = (parse c p.derived p.settings ⟨c.bytes, p.delimiterFound⟩).1 ∧
      p'.parseStatus = (parse c p.derived p.settings ⟨c.bytes, p.delimiterFound⟩).2.2 := by
  have hleft : p.unparsedBuffer.getSizeLeft = left := h.getSizeLeft
  have hmax : p.settings.parseDataTargetSize = left := by
    simp [SubParser.settings, h.unparsedBuffer]
  have hlimit : ¬ p.ChunkLimit w := by
    rw [h.chunkLimit_iff]
    omega
  obtain ⟨c, happ, hc, hbytes, hchunks, -⟩ := SubParser.appendToUnparsedBuffer_stored h.holds
    (by rw [hmax]; exact h64) hw (by omega) hlimit
  have hsmall := h.holds.smallChunks_append (by simp [SubParser.SmallChunks, h.unparsedBuffer]) w
  rw [happ] at hsmall
  rw [hleft] at happ hbytes hchunks
  rw [show p.unparsedBuffer.bytes = [] by simp [h.unparsedBuffer, BChunks.bytes],
    List.nil_append] at hbytes
  have hcmax : c.maxSize = left := hc.maxSize.trans hmax
  have hclear : c.clear = { maxSize := left } := by
    have := hc.limits
    rwa [hmax] at this
  have hsize : c.size = (w.take left).length := by
    rw [← hbytes]
    exact hc.counted.size_eq
  have hle : (w.take left).length ≤ left := List.length_take_le _ _
  -- `parse()` leaves the settings alone
  have hst : (parse c p.derived p.settings ⟨c.bytes, p.delimiterFound⟩).2.1 = p.settings := by
    simp only [parse, h.currentMode]
    split <;> rfl
  have hwrite := SubParser.writeIntoParser_direct heap h.parseMode hw happ
    (by rw [hcmax, h.unparsedBuffer]) (by omega) hst
  have hsub : subParserWrite heap p w = p.writeIntoParser (parse c) heap w := by
    rw [subParserWrite, happ]
  refine ⟨c, (p.writeIntoParser (parse c) heap w).1, hc.smallPieces hsmall, hc.counted, hbytes, ?_,
    hcmax, ?_⟩
  · rw [hchunks, h.unparsedBuffer, BChunks.chunksFor, stretches, List.length_nil, Nat.zero_add]
  · rw [hsub, hwrite]
    refine ⟨rfl, h.parseMode, h.streamEnded, ?_, rfl, rfl⟩
    simp only [hclear, hcmax, hsize]

/-- A write that the buffer has no room for is refused. -/
theorem subParserWrite_refused (h : Receiving p left) (hpos : 0 < left) (h64 : left < 2 ^ 64)
    (hw : w ≠ []) (hover : 256 * 1024 < stretches (w.take left).length) :
    (subParserWrite heap p w).2 = .nullopt := by
  have hmax : p.settings.parseDataTargetSize = left := by
    simp [SubParser.settings, h.unparsedBuffer]
  obtain ⟨c, happ⟩ := SubParser.appendToUnparsedBuffer_chunkLimit h.holds
    (by rw [hmax]; exact h64) hw (by rw [h.getSizeLeft]; omega) (h.chunkLimit_iff.mpr hover)
  exact SubParser.writeIntoParser_refused heap (Or.inr (Or.inr h.parseMode)) hw (by rw [happ])

theorem offer_refused (h : Receiving p left) (hpos : 0 < left) (h64 : left < 2 ^ 64)
    (hw : w ≠ []) (hover : 256 * 1024 < stretches (w.take left).length) :
    ∃ p', offer heap p w = (p', none) := by
  have hq : Receiving (p.setParseStatus .getMoreData) left :=
    ⟨h.parseMode, h.streamEnded, h.unparsedBuffer, h.currentMode, h.thrown⟩
  have hwrite := subParserWrite_refused heap hq hpos h64 hw hover
  rcases hsub : subParserWrite heap (p.setParseStatus .getMoreData) w with ⟨p', n⟩
  rw [hsub] at hwrite
  refine ⟨p', (offer_eq heap hsub).trans ?_⟩
  rw [show n = .nullopt from hwrite, show Written.nullopt.toOption = none from rfl, ite_self]

/-- What a write does to a body that is being received, in terms of the copy of its pieces to
the output stream. -/
theorem offer_receiving (h : Receiving p left) (hpos : 0 < left) (h64 : left < 2 ^ 64)
    (hw : w ≠ []) (hfit : stretches (w.take left).length ≤ 256 * 1024) :
    ∃ ds, SmallPieces ds ∧ ds.flatten = w.take left ∧
      ds.length = stretches (w.take left).length ∧
      (p.derived.outStream.copyLoop ds 0 = none → ∃ p', offer heap p w = (p', none)) ∧
      ∀ o r, p.derived.outStream.copyLoop ds 0 = some (o, r) →
        (w.length < left → ∃ p', offer heap p w = (p', some w.length) ∧
          Receiving p' (left - w.length) ∧ p'.derived.outStream = o ∧ finished p' = false) ∧
        (left ≤ w.length → (o.writeEOF = none → ∃ p', offer heap p w = (p', none)) ∧
          ∀ o' b, o.writeEOF = some (o', b) → ∃ p', offer heap p w = (p', some left) ∧
            p'.derived.outStream = o' ∧ finished p' = true) := by
  have hq : Receiving (p.setParseStatus .getMoreData) left :=
    ⟨h.parseMode, h.streamEnded, h.unparsedBuffer, h.currentMode, h.thrown⟩
  obtain ⟨c, p', hsmall, hcount, hbytes, hchunks, hmax, hwrite, hmode, hended, hbuffer, hderived,
    hstatus⟩ := subParserWrite_receiving heap hq hpos h64 hw hfit
  have hcopy : c.appendTo c.bytes.length p.derived.outStream =
      p.derived.outStream.copyLoop (c.chunksVector.map (·.data)) 0 := hcount.appendTo _
  have hoffer := offer_eq heap hwrite
  rw [show (Written.bytes (w.take left).length).toOption = some (w.take left).length from rfl]
    at hoffer
  have hsize : c.getSizeLeft = left - (w.take left).length := by
    have hle : (w.take left).length ≤ left := List.length_take_le _ _
    rw [BChunks.getSizeLeft, hmax, hcount.size_eq, hbytes, if_neg (by omega)]
  simp only [parse, SubParser.derived_setParseStatus, h.currentMode, hsize] at hderived hstatus
  refine ⟨c.chunksVector.map (·.data), hsmall, by rw [← hbytes]; rfl,
    by rw [List.length_map, hchunks], ?_, ?_⟩
  · intro hnone
    refine ⟨p', hoffer.trans ?_⟩
    rw [hnone] at hcopy
    have hthrown : p'.derived.thrown = true := by
      rw [hderived]
      split <;> simp [appendToOutStream, writeEOFToOutStream, withOutStream, hcopy]
    rw [if_pos (Or.inr hthrown)]
  · intro o r hsome
    rw [hsome] at hcopy
    have hout : p.derived.appendToOutStream c c.bytes = { p.derived with outStream := o } := by
      simp [appendToOutStream, withOutStream, hcopy]
    rw [hout] at hderived hstatus
    have hthrown := h.thrown
    constructor
    · intro hlt
      have htake : w.take left = w := List.take_of_length_le hlt.le
      rw [htake] at hderived hstatus hoffer hbuffer
      rw [if_pos (by omega)] at hderived hstatus
      refine ⟨p', ?_, ⟨hmode, hended, hbuffer, ?_, ?_⟩, ?_, ?_⟩
      · rw [hoffer, if_neg (by simp [hstatus, hderived, hthrown])]
      · rw [hderived]
        exact h.currentMode
      · rw [hderived]
        exact hthrown
      · rw [hderived]
      · simp [finished, hstatus]
    · intro hle
      have hlen : (w.take left).length = left := List.length_take_of_le hle
      rw [hlen] at hderived hstatus hoffer
      rw [if_neg (by omega)] at hderived hstatus
      constructor
      · intro heof
        have hthrown' : p'.derived.thrown = true := by
          rw [hderived]
          simp [writeEOFToOutStream, withOutStream, heof, hthrown]
        exact ⟨p', by rw [hoffer, if_pos (Or.inr hthrown')]⟩
      · intro o' b heof
        rw [show writeEOFToOutStream { p.derived with outStream := o } =
            { p.derived with outStream := o' } by
          simp [writeEOFToOutStream, withOutStream, heof, hthrown]] at hderived
        refine ⟨p', ?_, by rw [hderived], by simp [finished, hstatus]⟩
        rw [hoffer, if_neg (by simp [hstatus, hderived, hthrown])]

/-! ## Whole bodies -/

/-- The number of stretches of 64 KiB in which writes bring the first bytes of a stream. -/
def stretchesWithin : ℕ → List (List UInt8) → ℕ
  | _, [] => 0
  | n, w :: ws => stretches (w.take n).length + stretchesWithin (n - w.length) ws

/-- A run that delivers the next `n` bytes: the last call, and none before it, asks for the
next sub-parser, the calls take `n` bytes, the last of them in the last call, and these bytes
are what the output stream has got behind what was there before. -/
structure Delivered (before : List UInt8) (n : ℕ) (stream : List UInt8)
    (r : Result (SubParser Content) UInt8) : Prop where
  stopped : r.outcome = .stopped
  consumed : taken r.calls = n
  notEarlier : taken r.calls.dropLast < n
  bytes : r.final.derived.outStream.bytes = before ++ stream.take n

/-- What is left of the length of the body. -/
def bytesLeft (p : SubParser Content) : ℕ := p.unparsedBuffer.maxSize

theorem Receiving.bytesLeft_eq (h : Receiving p left) : bytesLeft p = left := by
  rw [bytesLeft, h.unparsedBuffer]

/-- `reduceMaxSizeBy` throws in a round: nothing else in `parseDirect` does. -/
def ReduceMaxSizeThrows (p : SubParser Content) (buf : List UInt8) : Prop :=
  (subParserWrite heap (p.setParseStatus .getMoreData) buf).2 = .exception

/-- A run over the rest of a body. -/
structure BodyRun (p : SubParser Content) (ws : List (List UInt8))
    (r : Result (SubParser Content) UInt8) : Prop where
  /-- No byte comes out twice. -/
  atMost : r.outcome = .stopped →
    r.final.derived.outStream.bytes.length ≤ p.derived.outStream.bytes.length + bytesLeft p
  delivered_iff : p.derived.outStream.Open → bytesLeft p ≤ ws.flatten.length →
    (Delivered p.derived.outStream.bytes (bytesLeft p) ws.flatten r ↔
      p.derived.outStream.chunks + stretchesWithin (bytesLeft p) ws ≤ 256 * 1024)
  noThrow : ∀ c ∈ r.calls, ¬ ReduceMaxSizeThrows heap c.before c.offered

/-- The state of a body of which at least one byte is missing. -/
structure Waiting (p : SubParser Content) : Prop where
  receiving : Receiving p (bytesLeft p)
  pos : 0 < bytesLeft p
  fits : bytesLeft p < 2 ^ 64
  plain : p.derived.outStream.Plain

theorem stretchesWithin_zero (ws : List (List UInt8)) : stretchesWithin 0 ws = 0 := by
  induction ws with
  | nil => rfl
  | cons w ws ih =>
      rw [stretchesWithin, List.take_zero, Nat.zero_sub, ih]
      rfl

/-- A write either ends the run, or delivers its part and leaves a body to wait for. -/
theorem offer_cases (h : Waiting p) (hw : w ≠ []) :
    (∃ p', offer heap p w = (p', none) ∧ (p.derived.outStream.Open →
      256 * 1024 < p.derived.outStream.chunks + stretches (w.take (bytesLeft p)).length)) ∨
    ∃ p', offer heap p w = (p', some (w.take (bytesLeft p)).length) ∧
      (finished p' = true ↔ bytesLeft p ≤ w.length) ∧
      (w.length < bytesLeft p → Waiting p' ∧ bytesLeft p' = bytesLeft p - w.length) ∧
      p'.derived.outStream.bytes.length ≤
        p.derived.outStream.bytes.length + (w.take (bytesLeft p)).length ∧
      (p.derived.outStream.Open →
        (p.derived.outStream.chunks + stretches (w.take (bytesLeft p)).length ≤ 256 * 1024 ∧
          p'.derived.outStream.Open ∧
          p'.derived.outStream.bytes = p.derived.outStream.bytes ++ w.take (bytesLeft p) ∧
          p'.derived.outStream.chunks =
            p.derived.outStream.chunks + stretches (w.take (bytesLeft p)).length) ∨
        (256 * 1024 < p.derived.outStream.chunks + stretches (w.take (bytesLeft p)).length ∧
          p'.derived.outStream.bytes.length <
            p.derived.outStream.bytes.length + (w.take (bytesLeft p)).length)) := by
  obtain ⟨hrec, hpos, h64, hplain⟩ := h
  by_cases hfit : stretches (w.take (bytesLeft p)).length ≤ 256 * 1024
  rotate_left
  · obtain ⟨p', hp'⟩ := offer_refused heap hrec hpos h64 hw (Nat.lt_of_not_le hfit)
    exact Or.inl ⟨p', hp', fun _ => by omega⟩
  obtain ⟨ds, hds, hflat, hlen, hthrow, hsome⟩ := offer_receiving heap hrec hpos h64 hw hfit
  rcases hcopy : p.derived.outStream.copyLoop ds 0 with _ | ⟨o, r⟩
  · obtain ⟨p', hp'⟩ := hthrow hcopy
    refine Or.inl ⟨p', hp', fun hopen => ?_⟩
    by_contra hroom
    obtain ⟨o, r, ho, -⟩ := hopen.copyLoop_room hds (by omega) (Nat.zero_le _)
    rw [hcopy] at ho
    cases ho
  obtain ⟨hmore, hend⟩ := hsome o r hcopy
  obtain ⟨hplain', hle⟩ := hplain.copyLoop hds hcopy
  rw [hflat] at hle
  have hopens : p.derived.outStream.Open →
      (p.derived.outStream.chunks + stretches (w.take (bytesLeft p)).length ≤ 256 * 1024 ∧ o.Open ∧
        o.bytes = p.derived.outStream.bytes ++ w.take (bytesLeft p) ∧
        o.chunks = p.derived.outStream.chunks + stretches (w.take (bytesLeft p)).length) ∨
      (256 * 1024 < p.derived.outStream.chunks + stretches (w.take (bytesLeft p)).length ∧
        o.bytes.length < p.derived.outStream.bytes.length + (w.take (bytesLeft p)).length) := by
    intro hopen
    rcases Nat.lt_or_ge (256 * 1024)
      (p.derived.outStream.chunks + stretches (w.take (bytesLeft p)).length) with hover | hroom
    · have := hopen.copyLoop_loses hds (by omega) hcopy
      rw [hflat] at this
      exact Or.inr ⟨hover, this⟩
    · obtain ⟨o', r', ho', hopen', hbytes', hchunks'⟩ :=
        hopen.copyLoop_room hds (by omega) (Nat.zero_le _)
      rw [hcopy] at ho'
      cases ho'
      rw [hflat] at hbytes'
      rw [hlen] at hchunks'
      exact Or.inl ⟨hroom, hopen', hbytes', hchunks'⟩
  rcases Nat.lt_or_ge w.length (bytesLeft p) with hlt | hge
  · obtain ⟨p', hp', hrec', hout, hfin⟩ := hmore hlt
    have htake : w.take (bytesLeft p) = w := List.take_of_length_le hlt.le
    have hleft := hrec'.bytesLeft_eq
    refine Or.inr ⟨p', by rw [htake]; exact hp', ?_, ?_, by rw [hout]; exact hle, ?_⟩
    · rw [hfin]
      simp only [Bool.false_eq_true, false_iff]
      omega
    · intro _
      refine ⟨⟨by rw [hleft]; exact hrec', by omega, by omega, by rw [hout]; exact hplain'⟩, hleft⟩
    · rw [hout]
      exact hopens
  · obtain ⟨heof, hdone⟩ := hend hge
    rcases hw' : o.writeEOF with _ | ⟨o', b⟩
    · obtain ⟨p', hp'⟩ := heof hw'
      refine Or.inl ⟨p', hp', fun hopen => ?_⟩
      rcases hopens hopen with ⟨-, hopen', -⟩ | ⟨hover, -⟩
      · obtain ⟨o'', ho'', -⟩ := hopen'.writeEOF
        rw [hw'] at ho''
        cases ho''
      · exact hover
    · obtain ⟨p', hp', hout, hfin⟩ := hdone o' b hw'
      have hbytes : o'.bytes = o.bytes := congrArg BChunks.bytes (container_writeEOF hw')
      have hlen' : (w.take (bytesLeft p)).length = bytesLeft p := List.length_take_of_le hge
      refine Or.inr ⟨p', by rw [hlen']; exact hp', ?_, fun hlt => ?_, ?_, fun hopen => ?_⟩
      · simp only [hfin, true_iff]
        exact hge
      · omega
      · rw [hout, hbytes]
        exact hle
      · rw [hout, hbytes]
        rcases hopens hopen with ⟨hroom, hopen', hb, hc⟩ | hover
        · obtain ⟨o'', ho'', hcont, hopen''⟩ := hopen'.writeEOF
          rw [hw'] at ho''
          cases ho''
          exact Or.inl ⟨hroom, hopen'', hb, by rw [chunks, hcont]; exact hc⟩
        · exact Or.inr hover

/-- The maximum size is never reduced by more than it is. -/
theorem not_reduceMaxSizeThrows (h : Waiting p) (hw : w ≠ []) :
    ¬ ReduceMaxSizeThrows heap p w := by
  obtain ⟨hrec, hpos, h64, -⟩ := h
  have hq : Receiving (p.setParseStatus .getMoreData) (bytesLeft p) :=
    ⟨hrec.parseMode, hrec.streamEnded, hrec.unparsedBuffer, hrec.currentMode, hrec.thrown⟩
  intro hthrow
  rw [ReduceMaxSizeThrows] at hthrow
  by_cases hfit : stretches (w.take (bytesLeft p)).length ≤ 256 * 1024
  · obtain ⟨c, p', -, -, -, -, -, hwrite, -⟩ := subParserWrite_receiving heap hq hpos h64 hw hfit
    rw [hwrite] at hthrow
    cases hthrow
  · rw [subParserWrite_refused heap hq hpos h64 hw (Nat.lt_of_not_le hfit)] at hthrow
    cases hthrow

/-- A write that is all of the body, in front of the others. -/
theorem delivered_cons_iff {before w stream : List UInt8} {n : ℕ} (hlt : w.length < n)
    (p : SubParser Content) (ws : List (List UInt8)) (r : Result (SubParser Content) UInt8) :
    Delivered before n (w ++ stream) ⟨⟨p, w, ws, some w.length⟩ :: r.calls, r.final, r.outcome⟩ ↔
      Delivered (before ++ w) (n - w.length) stream r := by
  have htake : (w ++ stream).take n = w ++ stream.take (n - w.length) := by
    rw [List.take_append, List.take_of_length_le hlt.le]
  -- the rest of the run has a call of its own, since a byte is missing
  have hlast : taken r.calls = n - w.length →
      taken (⟨p, w, ws, some w.length⟩ :: r.calls).dropLast =
        w.length + taken r.calls.dropLast := by
    intro htaken
    cases hcalls : r.calls with
    | nil =>
        rw [hcalls, taken_nil] at htaken
        omega
    | cons c calls =>
        rw [List.dropLast_cons_of_ne_nil (by simp), taken_cons, Option.getD_some]
  constructor
  · intro h
    have htaken := h.consumed
    simp only [taken_cons, Option.getD_some] at htaken
    have hearlier := h.notEarlier
    simp only [hlast (by omega)] at hearlier
    refine ⟨h.stopped, by omega, by omega, ?_⟩
    rw [List.append_assoc, ← htake]
    exact h.bytes
  · intro h
    have htaken := h.consumed
    have hearlier := h.notEarlier
    refine ⟨h.stopped, ?_, ?_, ?_⟩
    · simp only [taken_cons, Option.getD_some, htaken]
      omega
    · simp only [hlast htaken]
      omega
    · rw [htake, ← List.append_assoc]
      exact h.bytes

/-- A run over writes that bring at least the rest of the body. -/
theorem bodyRun {fuel : ℕ} (h : Waiting p) {ws : List (List UInt8)} (hws : ∀ w ∈ ws, w ≠ [])
    (hfuel : ws.flatten.length ≤ fuel) :
    BodyRun heap p ws (feed (offer heap) finished fuel p ws) := by
  refine feed_induction Waiting (fun _ _ _ => True)
    (BodyRun heap) ?progress ?keeps ?done ?failed ?stopped
    ?next fuel p ws h hws hfuel (fun _ _ => trivial)
  case progress =>
    intro p w ws p' k h hw _ hoffer
    rcases offer_cases heap h hw with ⟨q, hq, -⟩ | ⟨q, hq, -⟩
    · rw [hq] at hoffer
      cases hoffer
    · rw [hq] at hoffer
      cases hoffer
      exact ⟨List.length_pos_iff.mpr (BChunks.take_ne_nil h.pos hw), List.length_take_le' _ _⟩
  case keeps =>
    intro p w ws p' k h hw _ hoffer hstop
    rcases offer_cases heap h hw with ⟨q, hq, -⟩ | ⟨q, hq, hfin, hwait, -⟩
    · rw [hq] at hoffer
      cases hoffer
    · rw [hq] at hoffer
      cases hoffer
      rw [hstop, iff_false_left Bool.false_ne_true, Nat.not_le] at hfin
      exact (hwait hfin).1
  case done =>
    intro p h
    refine ⟨fun hstop => (by cases hstop), fun _ hle => ?_, by simp⟩
    have := h.pos
    simp only [List.flatten_nil, List.length_nil] at hle
    omega
  case failed =>
    intro p w ws p' h hw _ hoffer
    rcases offer_cases heap h hw with ⟨q, hq, hover⟩ | ⟨q, hq, -⟩
    · refine ⟨fun hstop => (by cases hstop), fun hopen _ => ?_, ?_⟩
      rotate_left
      · simpa using not_reduceMaxSizeThrows heap h hw
      constructor
      · intro hdel
        cases hdel.stopped
      · intro hroom
        have := hover hopen
        rw [stretchesWithin] at hroom
        omega
    · rw [hq] at hoffer
      cases hoffer
  case stopped =>
    intro p w ws p' k h hw _ hoffer hstop
    rcases offer_cases heap h hw with ⟨q, hq, -⟩ | ⟨q, hq, hfin, -, hle, hopens⟩
    · rw [hq] at hoffer
      cases hoffer
    · rw [hq] at hoffer
      cases hoffer
      have hge := hfin.mp hstop
      have hlen : (w.take (bytesLeft p)).length = bytesLeft p := List.length_take_of_le hge
      have hflat : (w :: ws).flatten.take (bytesLeft p) = w.take (bytesLeft p) := by
        rw [List.flatten_cons, List.take_append_of_le_length hge]
      refine ⟨fun _ => by rw [hlen] at hle; exact hle, fun hopen _ => ?_, ?_⟩
      rotate_left
      · simpa using not_reduceMaxSizeThrows heap h hw
      have hzero : stretchesWithin (bytesLeft p - w.length) ws = 0 := by
        rw [Nat.sub_eq_zero_of_le hge, stretchesWithin_zero]
      rw [stretchesWithin, hzero, Nat.add_zero]
      constructor
      · intro hdel
        rcases hopens hopen with ⟨hroom, -⟩ | ⟨-, hlost⟩
        · exact hroom
        · have := congrArg List.length hdel.bytes
          rw [hflat, List.length_append] at this
          simp only at this
          omega
      · intro hroom
        rcases hopens hopen with ⟨-, -, hbytes, -⟩ | ⟨hover, -⟩
        · exact ⟨rfl, by simp [hlen], by simpa using h.pos, by rw [hflat]; exact hbytes⟩
        · omega
  case next =>
    intro p w ws p' k r h hw _ hoffer hstop hr
    rcases offer_cases heap h hw with ⟨q, hq, -⟩ | ⟨q, hq, hfin, hwait, hle, hopens⟩
    · rw [hq] at hoffer
      cases hoffer
    · rw [hq] at hoffer
      cases hoffer
      rw [hstop, iff_false_left Bool.false_ne_true, Nat.not_le] at hfin
      obtain ⟨-, hleft⟩ := hwait hfin
      have htake : w.take (bytesLeft p) = w := List.take_of_length_le hfin.le
      rw [htake] at hle hopens hr ⊢
      obtain ⟨hmost, hiff, hnoThrow⟩ := hr
      have hrefeed : refeed w.length w ws = ws := if_neg (lt_irrefl _)
      rw [hrefeed, hleft] at hiff
      rw [hleft] at hmost
      refine ⟨fun hs => (hmost hs).trans (by omega), fun hopen hlen => ?_, ?_⟩
      rotate_left
      · simp only [List.mem_cons, forall_eq_or_imp]
        exact ⟨not_reduceMaxSizeThrows heap h hw, hnoThrow⟩
      rw [List.flatten_cons, List.length_append] at hlen
      rw [stretchesWithin, htake, List.flatten_cons, delivered_cons_iff hfin]
      rcases hopens hopen with ⟨hroom, hopen', hbytes, hchunks⟩ | ⟨hover, hlost⟩
      · have hiff' := hiff hopen' (by omega)
        rw [hchunks, Nat.add_assoc] at hiff'
        rw [← hbytes]
        exact hiff'
      · constructor
        · intro hdel
          have h1 := hmost hdel.stopped
          have h2 := congrArg List.length hdel.bytes
          rw [List.length_append, List.length_append, List.length_take] at h2
          omega
        · intro hroom
          omega

/-- A `Content` that was told the length of the body. -/
def withContentLength (maxPostDataSize maxHttpChunkSize n : ℕ) : SubParser Content :=
  (setContentLenSize (setTransmitionMode (fresh maxPostDataSize maxHttpChunkSize) .contentLength)
    n).1

theorem waiting_withContentLength {maxPostDataSize n : ℕ} (maxHttpChunkSize : ℕ) (hn : 1 ≤ n)
    (hmax : n ≤ maxPostDataSize) (h64 : maxPostDataSize < 2 ^ 64) :
    Waiting (withContentLength maxPostDataSize maxHttpChunkSize n) ∧
      bytesLeft (withContentLength maxPostDataSize maxHttpChunkSize n) = n ∧
      (withContentLength maxPostDataSize maxHttpChunkSize n).derived.outStream = {} := by
  have hlimit : ¬ (setTransmitionMode (fresh maxPostDataSize maxHttpChunkSize)
      .contentLength).derived.securityMaxPostDataSize < n := by
    exact Nat.not_lt.mpr hmax
  have hset : withContentLength maxPostDataSize maxHttpChunkSize n = applySettings
      { setTransmitionMode (fresh maxPostDataSize maxHttpChunkSize) .contentLength with
        derived := { (setTransmitionMode (fresh maxPostDataSize maxHttpChunkSize)
          .contentLength).derived with currentContentLengthSize := n } }
      { (setTransmitionMode (fresh maxPostDataSize maxHttpChunkSize) .contentLength).settings with
        parseDataTargetSize := n } := by
    rw [withContentLength, setContentLenSize, if_neg hlimit]
  rw [hset]
  refine ⟨⟨⟨rfl, rfl, rfl, rfl, rfl⟩, hn, Nat.lt_of_le_of_lt hmax h64, open_empty.toPlain⟩, rfl,
    rfl⟩

/-- **Bodies with a length.**  Whatever way a stream of at least `n` bytes is cut into
non-empty writes, a `Content` that was told the length `n` hands exactly the first `n` bytes
to its output stream, takes exactly these, and asks for the next sub-parser in the call that
brings the last of them, exactly if the writes bring them in at most 256 Ki stretches of
64 KiB.  In any case `reduceMaxSizeBy` does not throw. -/
theorem contentLength_delivered_iff (maxPostDataSize maxHttpChunkSize n : ℕ) (hn : 1 ≤ n)
    (hmax : n ≤ maxPostDataSize) (h64 : maxPostDataSize < 2 ^ 64) (ws : List (List UInt8))
    (hws : ∀ w ∈ ws, w ≠ []) (hlen : n ≤ ws.flatten.length) (fuel : ℕ)
    (hfuel : ws.flatten.length ≤ fuel) :
    (Delivered [] n ws.flatten (feed (offer heap) finished fuel
        (withContentLength maxPostDataSize maxHttpChunkSize n) ws)
      ↔ stretchesWithin n ws ≤ 256 * 1024) ∧
    ∀ c ∈ (feed (offer heap) finished fuel
        (withContentLength maxPostDataSize maxHttpChunkSize n) ws).calls,
      ¬ ReduceMaxSizeThrows heap c.before c.offered := by
  obtain ⟨hwait, hleft, hout⟩ := waiting_withContentLength maxHttpChunkSize hn hmax h64
  have hrun := bodyRun heap hwait hws hfuel
  have hiff := hrun.delivered_iff (by rw [hout]; exact open_empty) (by rw [hleft]; exact hlen)
  rw [hleft, hout] at hiff
  refine ⟨hiff.trans ?_, hrun.noThrow⟩
  rw [show ({} : StreamableChunks).chunks = 0 from rfl, Nat.zero_add]

/-- A body of five bytes in three writes, with two bytes behind it in the last one. -/
theorem contentLength_delivered_cut :
    Delivered [] 5 [1, 2, 3, 4, 5, 6, 7] (feed (offer (fun _ _ => 0)) finished 7
      (withContentLength 16 16 5) [[1, 2], [3], [4, 5, 6, 7]]) :=
  (contentLength_delivered_iff (fun _ _ => 0) 16 16 5 (by decide) (by decide) (by decide)
    [[1, 2], [3], [4, 5, 6, 7]] (by decide) (by decide) 7 (by decide)).1.mpr (by decide)

theorem stretchesWithin_replicate (n : ℕ) (x : UInt8) :
    stretchesWithin n (List.replicate n [x]) = n := by
  induction n with
  | zero => rfl
  | succ n ih =>
      rw [List.replicate_succ, stretchesWithin, List.length_singleton, Nat.add_sub_cancel, ih,
        List.take_of_length_le (by simp)]
      have : stretches [x].length = 1 := by simp [stretches]
      omega

theorem length_flatten_replicate (n : ℕ) (x : UInt8) :
    (List.replicate n [x]).flatten.length = n := by
  induction n with
  | zero => rfl
  | succ n ih =>
      rw [List.replicate_succ, List.flatten_cons, List.length_append, ih, List.length_singleton]
      omega

/-- A body of 256 KiB and one byte that arrives byte by byte, well within the limit on its
size, does not reach the output stream. -/
theorem single_bytes_lost :
    256 * 1024 + 1 ≤ 17 * 1024 * 1024 ∧
      ¬ Delivered [] (256 * 1024 + 1) (List.replicate (256 * 1024 + 1) [0]).flatten
        (feed (offer (fun _ _ => 0)) finished (256 * 1024 + 1)
          (withContentLength (17 * 1024 * 1024) (16 * 1024 * 1024) (256 * 1024 + 1))
          (List.replicate (256 * 1024 + 1) [0])) := by
  refine ⟨by norm_num, ?_⟩
  generalize hn : 256 * 1024 + 1 = n
  obtain ⟨hwait, hleft, hout⟩ := @waiting_withContentLength (17 * 1024 * 1024) n
    (16 * 1024 * 1024) (by omega) (by omega) (by norm_num)
  have hlen := length_flatten_replicate n 0
  have hrun := bodyRun (fun _ _ => 0) hwait
    (fun w hw => by rw [List.eq_of_mem_replicate hw]; simp) hlen.le
  have hiff := hrun.delivered_iff (by rw [hout]; exact open_empty) (by rw [hleft, hlen])
  rw [hleft, hout, stretchesWithin_replicate] at hiff
  intro hdelivered
  have hroom := hiff.mp hdelivered
  rw [show ({} : StreamableChunks).chunks = 0 from rfl] at hroom
  omega

end Content

end Mantids
