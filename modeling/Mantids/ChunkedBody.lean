/-
# Chunked bodies

A chunked body comes as lines with a size in base 16, each followed by that many bytes and a
line end; a size of zero ends it.  `Content` reads it in three modes that it switches in
`parse()`: a line up to the delimiter, the data by its size, two bytes by their size.

* `toUInt32_printHex` — the size that the encoder prints is the size that is read;
* `Line`, `Data`, `Crlf` — the states of the three modes between two writes, with what a
  write does in each of them;
* `chunked_received_iff` — when the body that `ContentChunkedTransformer` produced arrives.
-/
import Mantids.ContentLength
import Mantids.DelimiterMode

namespace Mantids

open Feed Occurrence StreamableChunks

/-! ## The printed size -/

theorem hexDigit_spec : ∀ d < 16, isxdigit (hexDigit d) = true ∧ xdigitValue (hexDigit d) = d ∧
    isspace (hexDigit d) = false ∧ hexDigit d ≠ 0 ∧ hexDigit d ≠ 13 ∧ hexDigit d ≠ 43 ∧
    hexDigit d ≠ 45 ∧ hexDigit d ≠ 88 ∧ hexDigit d ≠ 120 := by
  decide

/-- The digits of a printed size. -/
theorem exists_digits_printHex {n : ℕ} (hn : n < 2 ^ 32) :
    ∃ ds : List ℕ, printHex n = ds.reverse.map hexDigit ∧ ds ≠ [] ∧ (∀ d ∈ ds, d < 16) ∧
      Nat.ofDigits 16 ds = n ∧ ds.length ≤ 8 := by
  rw [printHex, Nat.mod_eq_of_lt hn]
  by_cases hzero : n = 0
  · refine ⟨[0], ?_, by simp, by simp, by simp [hzero], by simp⟩
    rw [if_pos hzero]
    rfl
  · refine ⟨Nat.digits 16 n, if_neg hzero, Nat.digits_ne_nil_iff_ne_zero.mpr hzero,
      fun d hd => Nat.digits_lt_base (by norm_num) hd, Nat.ofDigits_digits 16 n, ?_⟩
    rw [Nat.digits_length_le_iff (by norm_num)]
    exact hn

/-- A property that all digits have. -/
theorem forall_mem_printHex {P : UInt8 → Prop} (h : ∀ d < 16, P (hexDigit d)) {n : ℕ}
    (hn : n < 2 ^ 32) : ∀ x ∈ printHex n, P x := by
  obtain ⟨ds, hds, -, hlt, -⟩ := exists_digits_printHex hn
  intro x hx
  rw [hds, List.mem_map] at hx
  obtain ⟨d, hd, rfl⟩ := hx
  exact h d (hlt d (List.mem_reverse.mp hd))

theorem length_printHex_le {n : ℕ} (hn : n < 2 ^ 32) : (printHex n).length ≤ 8 := by
  obtain ⟨ds, hds, -, -, -, hlen⟩ := exists_digits_printHex hn
  rw [hds, List.length_map, List.length_reverse]
  exact hlen

theorem printHex_ne_nil {n : ℕ} (hn : n < 2 ^ 32) : printHex n ≠ [] := by
  obtain ⟨ds, hds, hne, -⟩ := exists_digits_printHex hn
  rw [hds]
  simpa using hne

/-- The value of digits from the highest one on. -/
theorem foldl_hexDigit {ds : List ℕ} (h : ∀ d ∈ ds, d < 16) :
    (ds.reverse.map hexDigit).foldl (fun v c => v * 16 + xdigitValue c) 0 =
      Nat.ofDigits 16 ds := by
  rw [List.map_reverse, List.foldl_reverse, Nat.ofDigits_eq_foldr]
  induction ds with
  | nil => rfl
  | cons d ds ih =>
      have hd := (hexDigit_spec d (h d (List.mem_cons_self ..))).2.1
      rw [List.map_cons, List.foldr_cons, List.foldr_cons,
        ih (fun e he => h e (List.mem_cons_of_mem _ he)), hd]
      simp only [Nat.cast_id]
      ring

/-- No `0x` stands in front of digits, because `x` is not one. -/
theorem skipHexPrefix_digits {s : List UInt8} (h : ∀ x ∈ s, x ≠ 88 ∧ x ≠ 120) :
    skipHexPrefix s = s := by
  unfold skipHexPrefix
  split
  · rename_i y d rest
    obtain ⟨h88, h120⟩ := h y (by simp)
    rw [if_neg (by simp [h88, h120])]
  · rfl

/-- `strtoul` on digits alone. -/
theorem strtoul_digits {s : List UInt8} (hne : s ≠ []) (h : ∀ x ∈ s, isxdigit x = true ∧
    isspace x = false ∧ x ≠ 43 ∧ x ≠ 45 ∧ x ≠ 88 ∧ x ≠ 120)
    (hfits : s.foldl (fun v c => v * 16 + xdigitValue c) 0 < 2 ^ 64) :
    strtoul s = some (s.foldl (fun v c => v * 16 + xdigitValue c) 0) := by
  obtain ⟨x, xs, rfl⟩ := List.exists_cons_of_ne_nil hne
  obtain ⟨hx, hspace, hplus, hminus, -⟩ := h x (List.mem_cons_self ..)
  have hall : (x :: xs).all isxdigit = true := List.all_eq_true.mpr (fun y hy => (h y hy).1)
  have hdrop : (x :: xs).dropWhile isspace = x :: xs := by
    simp [hspace]
  have hpre := skipHexPrefix_digits (fun y hy => (h y hy).2.2.2.2)
  simp only [strtoul, hdrop, List.head?_cons, Option.some.injEq, hminus, hplus, or_self, if_false,
    hpre, hall, reduceCtorEq, Bool.true_eq_false]
  rw [if_neg (by omega)]
  simp [hminus]

/-- What `%X` prints is read back by `strtoul`. -/
theorem toUInt32_printHex {n : ℕ} (hn : n < 2 ^ 32) : toUInt32 (printHex n) = some n := by
  obtain ⟨ds, hds, hne, hlt, hvalue, -⟩ := exists_digits_printHex hn
  have hzero : (printHex n).takeWhile (· != 0) = printHex n := by
    rw [List.takeWhile_eq_self_iff]
    exact forall_mem_printHex (fun d hd => by simp [(hexDigit_spec d hd).2.2.2.1]) hn
  have hfold := foldl_hexDigit hlt
  rw [← hds, hvalue] at hfold
  have hdigits : ∀ x ∈ printHex n, isxdigit x = true ∧ isspace x = false ∧ x ≠ 43 ∧ x ≠ 45 ∧
      x ≠ 88 ∧ x ≠ 120 := by
    refine forall_mem_printHex (fun d hd => ?_) hn
    obtain ⟨h1, -, h2, -, -, h3, h4, h5, h6⟩ := hexDigit_spec d hd
    exact ⟨h1, h2, h3, h4, h5, h6⟩
  rw [toUInt32, hzero, strtoul_digits (printHex_ne_nil hn) hdigits (by rw [hfold]; omega), hfold,
    Option.map_some, Nat.mod_eq_of_lt hn]

namespace Content

variable (heap : ℕ → ℕ → UInt8) {p : SubParser Content} {w : List UInt8}

/-! ## The states between two writes -/

/-- The sub-parser in one of its modes, with data in its buffer. -/
structure Ready (p : SubParser Content) (mode : ProcessingMode) (parseMode : ParseMode)
    (target : ℕ) : Prop where
  holds : SubParser.Holds { parseMode := parseMode, parseDataTargetSize := target } p
  small : p.SmallChunks
  plain : p.derived.outStream.Plain
  thrown : p.derived.thrown = false
  currentMode : p.derived.currentMode = mode

/-- Waiting for the end of a line with a size. -/
def Line (p : SubParser Content) (target : ℕ) : Prop :=
  Ready p .chunkSize .delimiter target ∧ 64 ≤ target ∧ target ≤ 1024 ∧
    first [13, 10] p.unparsedBuffer.bytes = none

/-- Waiting for the rest of `n` bytes of data. -/
def Data (p : SubParser Content) (n : ℕ) : Prop :=
  Ready p .chunkData .size n ∧ p.unparsedBuffer.bytes.length < n ∧ n < 2 ^ 32

/-- Waiting for the line end behind the data. -/
def Crlf (p : SubParser Content) : Prop :=
  Ready p .chunkCRLF .size 2 ∧ p.unparsedBuffer.bytes.length < 2

variable {mode : ProcessingMode} {parseMode : ParseMode} {target : ℕ}

theorem Ready.getSizeLeft (h : Ready p mode parseMode target) :
    p.unparsedBuffer.getSizeLeft = target - p.unparsedBuffer.bytes.length := h.holds.getSizeLeft

theorem Ready.length_le (h : Ready p mode parseMode target) :
    p.unparsedBuffer.bytes.length ≤ target := by
  rw [← h.holds.size_eq]
  exact h.holds.size_le

theorem Ready.setParseStatus (h : Ready p mode parseMode target) (s : ParseStatus) :
    Ready (p.setParseStatus s) mode parseMode target :=
  ⟨h.holds.setParseStatus s, h.small, h.plain, h.thrown, h.currentMode⟩

theorem Ready.chunkLimit_iff (h : Ready p mode parseMode target) :
    p.ChunkLimit w ↔ 256 * 1024 < p.unparsedBuffer.chunksVector.length +
      stretches (w.take (target - p.unparsedBuffer.bytes.length)).length := by
  have hmax : p.unparsedBuffer.maxChunks = 256 * 1024 := congrArg BChunks.maxChunks h.holds.limits
  rw [SubParser.ChunkLimit, BChunks.HasChunks, h.getSizeLeft, Nat.not_le, hmax,
    BChunks.chunksFor, h.holds.maxChunkSize, stretches]

/-- A write that the buffer has room for is stored. -/
theorem Ready.stored (h : Ready p mode parseMode target) (h64 : target < 2 ^ 64) (hw : w ≠ [])
    (hleft : p.unparsedBuffer.bytes.length < target)
    (hlimit : p.unparsedBuffer.chunksVector.length +
      stretches (w.take (target - p.unparsedBuffer.bytes.length)).length ≤ 256 * 1024) :
    ∃ c, p.appendToUnparsedBuffer w = ({ p with unparsedBuffer := c },
        some (w.take (target - p.unparsedBuffer.bytes.length)).length) ∧
      Ready { p with unparsedBuffer := c } mode parseMode target ∧
      c.bytes = p.unparsedBuffer.bytes ++ w.take (target - p.unparsedBuffer.bytes.length) ∧
      c.chunksVector.length = p.unparsedBuffer.chunksVector.length +
        stretches (w.take (target - p.unparsedBuffer.bytes.length)).length := by
  have hnot : ¬ p.ChunkLimit w := by
    rw [h.chunkLimit_iff]
    omega
  have hsize := h.getSizeLeft
  obtain ⟨c, happ, hc, hbytes, hchunks, -⟩ := SubParser.appendToUnparsedBuffer_stored h.holds h64 hw
    (by omega) hnot
  have hsmall := h.holds.smallChunks_append h.small w
  rw [happ] at hsmall
  rw [hsize] at happ hbytes hchunks
  refine ⟨c, happ, ⟨hc, hsmall, h.plain, h.thrown, h.currentMode⟩, hbytes, ?_⟩
  rw [hchunks, BChunks.chunksFor, h.holds.maxChunkSize, stretches]

/-- A write that it has no room for ends the parsing. -/
theorem Ready.offer_refused (h : Ready p mode parseMode target) (h64 : target < 2 ^ 64)
    (hmode : parseMode = .size ∨ parseMode = .delimiter) (hw : w ≠ [])
    (hfull : p.unparsedBuffer.bytes.length = target ∨
      256 * 1024 < p.unparsedBuffer.chunksVector.length +
        stretches (w.take (target - p.unparsedBuffer.bytes.length)).length) :
    ∃ p', offer heap p w = (p', none) := by
  have hq := h.setParseStatus .getMoreData
  have happ : ((p.setParseStatus .getMoreData).appendToUnparsedBuffer w).2 = none := by
    have hsize := hq.getSizeLeft
    by_cases hleft : (p.setParseStatus .getMoreData).unparsedBuffer.getSizeLeft = 0
    · rw [SubParser.appendToUnparsedBuffer_full hw hleft]
    · rcases hfull with hfull | hlimit
      · have : (p.setParseStatus .getMoreData).unparsedBuffer.bytes.length = target := hfull
        omega
      · obtain ⟨c, hc⟩ := SubParser.appendToUnparsedBuffer_chunkLimit hq.holds h64 hw hleft
          (hq.chunkLimit_iff.mpr hlimit)
        rw [hc]
  have hpm : (p.setParseStatus .getMoreData).parseMode = .size ∨
      (p.setParseStatus .getMoreData).parseMode = .delimiter ∨
      (p.setParseStatus .getMoreData).parseMode = .direct := by
    rcases hmode with hm | hm
    · exact Or.inl (hq.holds.parseMode.trans hm)
    · exact Or.inr (Or.inl (hq.holds.parseMode.trans hm))
  have hwrite : (subParserWrite heap (p.setParseStatus .getMoreData) w).2 = .nullopt :=
    SubParser.writeIntoParser_refused heap hpm hw happ
  rcases hsub : subParserWrite heap (p.setParseStatus .getMoreData) w with ⟨p', n⟩
  rw [hsub] at hwrite
  refine ⟨p', (offer_eq heap hsub).trans ?_⟩
  rw [show n = .nullopt from hwrite, show Written.nullopt.toOption = none from rfl, ite_self]

/-- What `parse()` makes of the buffer `c` in a given mode, when the buffer is cleared after
it. -/
theorem Ready.parsed (h : Ready p mode parseMode target) (c : BChunks) (b : List UInt8)
    {c' : Content} {st : ParseSettings} {status : ParseStatus}
    (hparse : parse c p.derived p.settings ⟨b, p.delimiterFound⟩ = (c', st, status)) :
    SubParser.Holds st (p.callParse (parse c) b).clearUnparsed ∧
      (p.callParse (parse c) b).clearUnparsed.unparsedBuffer =
        { maxSize := st.parseDataTargetSize } ∧
      (p.callParse (parse c) b).clearUnparsed.derived = c' ∧
      (p.callParse (parse c) b).clearUnparsed.parseStatus = status ∧
      (p.callParse (parse c) b).clearUnparsed.parseDelimiter = st.parseDelimiter := by
  obtain ⟨h1, h2⟩ := h.holds.callParse_clear (parse c) b
  rw [hparse] at h1 h2
  refine ⟨h1, h2, ?_, ?_, ?_⟩
  · exact congrArg Prod.fst hparse
  · exact congrArg (fun r => r.2.2) hparse
  · exact congrArg (fun r => r.2.1.parseDelimiter) hparse

/-- The state after `parse()` switched to another mode. -/
theorem ready_of_parsed {q : SubParser Content} {st : ParseSettings} {mode : ProcessingMode}
    (hholds : SubParser.Holds st q)
    (hbuffer : q.unparsedBuffer = { maxSize := st.parseDataTargetSize })
    (hmulti : st.parseMode ≠ .multiDelimiter) (hdelim : st.parseDelimiter = [13, 10])
    (hplain : q.derived.outStream.Plain)
    (hthrown : q.derived.thrown = false) (hmode : q.derived.currentMode = mode) :
    Ready q mode st.parseMode st.parseDataTargetSize := by
  refine ⟨⟨⟨hholds.parseMode, hholds.maxSize, fun hm => ?_, fun hm => ?_⟩, hholds.streamEnded,
    hholds.limits, hholds.counted, hholds.chunks, hholds.size_le⟩, ?_, hplain, hthrown, hmode⟩
  · exact (hholds.parseDelimiter hm).trans hdelim
  · exact absurd hm hmulti
  · simp [SubParser.SmallChunks, hbuffer]

/-- A write that is only stored. -/
theorem Ready.offer_stored (h : Ready p mode parseMode target) {c : BChunks} {n : ℕ}
    (hsub : subParserWrite heap (p.setParseStatus .getMoreData) w =
      ({ p.setParseStatus .getMoreData with unparsedBuffer := c }, .bytes n)) :
    offer heap p w = ({ p.setParseStatus .getMoreData with unparsedBuffer := c }, some n) := by
  have hthrown : ({ p.setParseStatus .getMoreData with unparsedBuffer := c } :
      SubParser Content).derived.thrown = false := h.thrown
  rw [offer_eq heap hsub, hthrown, if_neg (by simp [SubParser.setParseStatus])]
  rfl

/-- A write in one of the modes that wait for a number of bytes: the bytes are still too few,
or `parse()` is shown them. -/
theorem Ready.offer_size (h : Ready p mode .size target) (h64 : target < 2 ^ 64) (hw : w ≠ [])
    (hleft : p.unparsedBuffer.bytes.length < target)
    (hlimit : p.unparsedBuffer.chunksVector.length +
      stretches (w.take (target - p.unparsedBuffer.bytes.length)).length ≤ 256 * 1024) :
    ∃ c, c.bytes = p.unparsedBuffer.bytes ++ w.take (target - p.unparsedBuffer.bytes.length) ∧
      c.chunksVector.length = p.unparsedBuffer.chunksVector.length +
        stretches (w.take (target - p.unparsedBuffer.bytes.length)).length ∧
      Ready { p.setParseStatus .getMoreData with unparsedBuffer := c } mode .size target ∧
      (p.unparsedBuffer.bytes.length + w.length < target →
        offer heap p w =
          ({ p.setParseStatus .getMoreData with unparsedBuffer := c }, some w.length)) ∧
      (target ≤ p.unparsedBuffer.bytes.length + w.length →
        subParserWrite heap (p.setParseStatus .getMoreData) w =
          ((({ p.setParseStatus .getMoreData with unparsedBuffer := c } :
              SubParser Content).callParse (parse c) c.bytes).clearUnparsed,
            .bytes (target - p.unparsedBuffer.bytes.length))) := by
  have hq := h.setParseStatus .getMoreData
  obtain ⟨c, happ, hready, hbytes, hchunks⟩ := hq.stored h64 hw hleft hlimit
  have hsub : subParserWrite heap (p.setParseStatus .getMoreData) w =
      (p.setParseStatus .getMoreData).writeIntoParser (parse c) heap w := by
    rw [subParserWrite, happ]
  rw [SubParser.writeIntoParser_size heap hq.holds.parseMode hw happ,
    SubParser.unparsedBuffer_setParseStatus] at hsub
  have hbytes' : c.bytes =
      p.unparsedBuffer.bytes ++ w.take (target - p.unparsedBuffer.bytes.length) := hbytes
  have hlen : c.getSizeLeft = target - c.bytes.length := hready.getSizeLeft
  rw [hbytes', List.length_append, List.length_take] at hlen
  refine ⟨c, hbytes', hchunks, hready, ?_, ?_⟩
  · intro hlt
    rw [if_neg (by omega)] at hsub
    refine h.offer_stored heap (hsub.trans ?_)
    rw [List.length_take]
    congr 2
    exact Nat.min_eq_right (by omega)
  · intro hge
    rw [if_pos (by omega)] at hsub
    rw [hsub, List.length_take]
    congr 2
    exact Nat.min_eq_left (by omega)

/-- The line end behind the data is skipped. -/
theorem offer_crlf (h : Crlf p) (hw : w ≠ []) :
    (p.unparsedBuffer.bytes.length + w.length < 2 ∧ ∃ p', offer heap p w = (p', some w.length) ∧
      finished p' = false ∧ Crlf p' ∧ p'.unparsedBuffer.bytes = p.unparsedBuffer.bytes ++ w ∧
      p'.derived = p.derived) ∨
    (2 ≤ p.unparsedBuffer.bytes.length + w.length ∧ ∃ p',
      offer heap p w = (p', some (2 - p.unparsedBuffer.bytes.length)) ∧ finished p' = false ∧
      Line p' 1024 ∧ p'.unparsedBuffer.bytes = [] ∧
      p'.derived = { p.derived with currentMode := .chunkSize }) := by
  obtain ⟨hready, hlt⟩ := h
  have hchunks := hready.holds.chunks_le
  have hone : stretches (w.take (2 - p.unparsedBuffer.bytes.length)).length ≤ 1 := by
    have := List.length_take_le (2 - p.unparsedBuffer.bytes.length) w
    unfold stretches
    omega
  obtain ⟨c, hbytes, -, hready', hpart, hfull⟩ :=
    hready.offer_size heap (by norm_num) hw hlt (by omega)
  rcases Nat.lt_or_ge (p.unparsedBuffer.bytes.length + w.length) 2 with hl | hl
  · rw [List.take_of_length_le (by omega)] at hbytes
    refine Or.inl ⟨hl, _, hpart hl, rfl, ⟨hready', ?_⟩, hbytes, rfl⟩
    have : c.bytes.length < 2 := by
      rw [hbytes, List.length_append]
      exact hl
    exact this
  · have hparse : parse c p.derived
        ({ p.setParseStatus .getMoreData with unparsedBuffer := c } : SubParser Content).settings
        ⟨c.bytes, p.delimiterFound⟩ = ({ p.derived with currentMode := .chunkSize },
          { ({ p.setParseStatus .getMoreData with
              unparsedBuffer := c } : SubParser Content).settings.setParseMode .delimiter with
            parseDelimiter := [13, 10], parseDataTargetSize := 1 * 1024 }, .getMoreData) := by
      simp only [parse, hready.currentMode]
    obtain ⟨h1, h2, h3, h4, -⟩ := hready'.parsed c c.bytes hparse
    have hoffer := offer_eq heap (hfull hl)
    rw [h4, h3, if_neg (by simp [hready.thrown])] at hoffer
    refine Or.inr ⟨hl, _, hoffer, ?_, ⟨?_, by norm_num, by norm_num, ?_⟩, ?_, h3⟩
    · rw [finished, h4]
      rfl
    · exact ready_of_parsed h1 h2 (by simp [ParseSettings.setParseMode]) rfl
        (by rw [h3]; exact hready.plain) (by rw [h3]; exact hready.thrown) (by rw [h3])
    · rw [h2]
      exact first_nil (by simp)
    · rw [h2]
      rfl

/-- The pieces in which the data of a chunk has arrived so far, together with those that are
in the output stream, after a write. -/
def piecesAfter (p : SubParser Content) (w : List UInt8) : ℕ :=
  p.derived.outStream.chunks + p.unparsedBuffer.chunksVector.length +
    stretches (w.take p.unparsedBuffer.getSizeLeft).length

/-- The data of a chunk is collected, and then written to the output stream at once. -/
theorem offer_data {n : ℕ} (h : Data p n) (hw : w ≠ []) :
    (∃ p', offer heap p w = (p', none) ∧
      (p.derived.outStream.Open → 256 * 1024 < piecesAfter p w)) ∨
    (p.unparsedBuffer.bytes.length + w.length < n ∧ ∃ p', offer heap p w = (p', some w.length) ∧
      finished p' = false ∧ Data p' n ∧
      p'.unparsedBuffer.bytes = p.unparsedBuffer.bytes ++ w ∧
      p'.derived.outStream.chunks + p'.unparsedBuffer.chunksVector.length = piecesAfter p w ∧
      p'.derived = p.derived) ∨
    (n ≤ p.unparsedBuffer.bytes.length + w.length ∧ ∃ p',
      offer heap p w = (p', some (n - p.unparsedBuffer.bytes.length)) ∧ finished p' = false ∧
      Crlf p' ∧ p'.unparsedBuffer.bytes = [] ∧
      p'.derived.securityMaxHttpChunkSize = p.derived.securityMaxHttpChunkSize ∧
      p'.derived.outStream.bytes.length ≤ p.derived.outStream.bytes.length + n ∧
      (p.derived.outStream.Open →
        (piecesAfter p w ≤ 256 * 1024 ∧ p'.derived.outStream.Open ∧
          p'.derived.outStream.chunks = piecesAfter p w ∧
          p'.derived.outStream.bytes = p.derived.outStream.bytes ++
            (p.unparsedBuffer.bytes ++ w.take (n - p.unparsedBuffer.bytes.length))) ∨
        (256 * 1024 < piecesAfter p w ∧
          p'.derived.outStream.bytes.length < p.derived.outStream.bytes.length + n))) := by
  obtain ⟨hready, hlt, h32⟩ := h
  have hpieces : piecesAfter p w = p.derived.outStream.chunks +
      p.unparsedBuffer.chunksVector.length +
      stretches (w.take (n - p.unparsedBuffer.bytes.length)).length := by
    rw [piecesAfter, hready.getSizeLeft]
  by_cases hlimit : p.unparsedBuffer.chunksVector.length +
      stretches (w.take (n - p.unparsedBuffer.bytes.length)).length ≤ 256 * 1024
  rotate_left
  · obtain ⟨p', hp'⟩ := hready.offer_refused heap (by omega) (Or.inl rfl) hw (Or.inr (by omega))
    exact Or.inl ⟨p', hp', fun _ => by omega⟩
  obtain ⟨c, hbytes, hchunks, hready', hpart, hfull⟩ :=
    hready.offer_size heap (by omega) hw hlt hlimit
  rcases Nat.lt_or_ge (p.unparsedBuffer.bytes.length + w.length) n with hl | hl
  · rw [List.take_of_length_le (show w.length ≤ _ by omega)] at hbytes
    refine Or.inr (Or.inl ⟨hl, _, hpart hl, rfl, ⟨hready', ?_, h32⟩, hbytes, ?_, rfl⟩)
    · have : c.bytes.length < n := by
        rw [hbytes, List.length_append]
        exact hl
      exact this
    · have : p.derived.outStream.chunks + c.chunksVector.length = piecesAfter p w := by omega
      exact this
  have hlen : c.bytes.length = n := by
    rw [hbytes, List.length_append, List.length_take_of_le (by omega)]
    omega
  have hsmall : SmallPieces (c.chunksVector.map (·.data)) := hready'.holds.smallPieces hready'.small
  have hflat : (c.chunksVector.map (·.data)).flatten = c.bytes := rfl
  have hcount : (c.chunksVector.map (·.data)).length = c.chunksVector.length := List.length_map ..
  have hcopy : c.appendTo c.bytes.length p.derived.outStream =
      p.derived.outStream.copyLoop (c.chunksVector.map (·.data)) 0 :=
    hready'.holds.counted.appendTo _
  have hparse : parse c p.derived
      ({ p.setParseStatus .getMoreData with unparsedBuffer := c } : SubParser Content).settings
      ⟨c.bytes, p.delimiterFound⟩ =
      (({ p.derived with currentMode := .chunkCRLF } : Content).appendToOutStream c c.bytes,
        { ({ p.setParseStatus .getMoreData with
            unparsedBuffer := c } : SubParser Content).settings.setParseMode .size with
          parseDataTargetSize := 2 }, .getMoreData) := by
    simp only [parse, hready.currentMode]
  obtain ⟨h1, h2, h3, h4, -⟩ := hready'.parsed c c.bytes hparse
  have hoffer := offer_eq heap (hfull hl)
  rcases hres : p.derived.outStream.copyLoop (c.chunksVector.map (·.data)) 0 with _ | ⟨o, r⟩
  · -- the output stream throws
    rw [hres] at hcopy
    rw [h3, if_pos (Or.inr (by simp [appendToOutStream, withOutStream, hcopy]))] at hoffer
    refine Or.inl ⟨_, hoffer, fun hopen => ?_⟩
    by_contra hroom
    obtain ⟨o, r, ho, -⟩ := hopen.copyLoop_room hsmall (by omega) (Nat.zero_le _)
    rw [hres] at ho
    cases ho
  · rw [hres] at hcopy
    have hout : ({ p.derived with currentMode := .chunkCRLF } : Content).appendToOutStream c
        c.bytes = { p.derived with currentMode := .chunkCRLF, outStream := o } := by
      simp [appendToOutStream, withOutStream, hcopy]
    rw [hout] at h3
    rw [h4, h3, if_neg (by simp [hready.thrown])] at hoffer
    obtain ⟨hplain, hle⟩ := hready.plain.copyLoop hsmall hres
    rw [hflat, hlen] at hle
    refine Or.inr (Or.inr ⟨hl, _, hoffer, ?_, ⟨?_, ?_⟩, ?_, by rw [h3], by rw [h3]; exact hle, ?_⟩)
    · rw [finished, h4]
      rfl
    · refine ready_of_parsed h1 h2 (by simp [ParseSettings.setParseMode]) ?_
        (by rw [h3]; exact hplain)
        (by rw [h3]; exact hready.thrown) (by rw [h3])
      exact hready'.holds.parseDelimiter (by simp)
    · rw [h2]
      simp [BChunks.bytes]
    · rw [h2]
      rfl
    · rw [h3]
      intro hopen
      rcases Nat.lt_or_ge (256 * 1024) (piecesAfter p w) with hover | hroom
      · have := hopen.copyLoop_loses hsmall (by omega) hres
        rw [hflat, hlen] at this
        exact Or.inr ⟨hover, this⟩
      · obtain ⟨o', r', ho', hopen', hbytes', hchunks'⟩ :=
          hopen.copyLoop_room hsmall (by omega) (Nat.zero_le _)
        rw [hres] at ho'
        cases ho'
        have hcount' : o.chunks = piecesAfter p w := by omega
        exact Or.inl ⟨hroom, hopen', hcount', by rw [hbytes', hflat, hbytes]⟩

theorem parseHttpChunkSize_lt (c : Content) (b : List UInt8) :
    c.parseHttpChunkSize b < 2 ^ 32 := by
  unfold parseHttpChunkSize
  split
  · norm_num
  · rename_i n hn
    split
    · norm_num
    · simp only [toUInt32, Option.map_eq_some_iff] at hn
      obtain ⟨v, -, rfl⟩ := hn
      exact Nat.mod_lt _ (by norm_num)

/-- What is in the buffer of a line once a write was added to it. -/
def lineAfter (p : SubParser Content) (w : List UInt8) : List UInt8 :=
  p.unparsedBuffer.bytes ++ w.take p.unparsedBuffer.getSizeLeft

/-- A line is collected up to its end; its size decides what comes next. -/
theorem offer_line (h : Line p target) (hw : w ≠ []) :
    (∃ p', offer heap p w = (p', none) ∧ (p.unparsedBuffer.bytes.length = target ∨
      ∃ pos, first [13, 10] (lineAfter p w) = some pos ∧
        (p.derived.parseHttpChunkSize ((lineAfter p w).take pos) = 2 ^ 32 - 1 ∨
          (p.derived.parseHttpChunkSize ((lineAfter p w).take pos) = 0 ∧
            p.derived.outStream.writeEOF = none)))) ∨
    (∃ p' pos, first [13, 10] (lineAfter p w) = some pos ∧
      offer heap p w = (p', some (pos + 2 - p.unparsedBuffer.bytes.length)) ∧
      ((0 < p.derived.parseHttpChunkSize ((lineAfter p w).take pos) ∧
          p.derived.parseHttpChunkSize ((lineAfter p w).take pos) ≠ 2 ^ 32 - 1 ∧
          finished p' = false ∧
          Data p' (p.derived.parseHttpChunkSize ((lineAfter p w).take pos)) ∧
          p'.unparsedBuffer.chunksVector = [] ∧
          p'.derived = { p.derived with currentMode := .chunkData }) ∨
        (p.derived.parseHttpChunkSize ((lineAfter p w).take pos) = 0 ∧ finished p' = true ∧
          ∃ o b, p.derived.outStream.writeEOF = some (o, b) ∧
            p'.derived = { p.derived with outStream := o }))) ∨
    (p.unparsedBuffer.bytes.length < target ∧ ∃ p',
      offer heap p w = (p', some (w.take p.unparsedBuffer.getSizeLeft).length) ∧
      finished p' = false ∧ Line p' target ∧ p'.unparsedBuffer.bytes = lineAfter p w ∧
      p'.derived = p.derived) := by
  obtain ⟨hready, h64, h1024, hnone⟩ := h
  have hsize := hready.getSizeLeft
  by_cases hfull : p.unparsedBuffer.bytes.length = target
  · obtain ⟨p', hp'⟩ := hready.offer_refused heap (by omega) (Or.inr rfl) hw (Or.inl hfull)
    exact Or.inl ⟨p', hp', Or.inl hfull⟩
  have hlt : p.unparsedBuffer.bytes.length < target := by
    have := hready.length_le
    omega
  have hchunks := hready.holds.chunks_le
  have hone : stretches (w.take (target - p.unparsedBuffer.bytes.length)).length ≤ 1 := by
    have := List.length_take_le (target - p.unparsedBuffer.bytes.length) w
    unfold stretches
    omega
  have hq := hready.setParseStatus .getMoreData
  obtain ⟨c, happ, hready', hbytes, -⟩ := hq.stored (by omega) hw
    (by rw [SubParser.unparsedBuffer_setParseStatus]; exact hlt)
    (by rw [SubParser.unparsedBuffer_setParseStatus]; omega)
  rw [SubParser.unparsedBuffer_setParseStatus, ← hsize] at happ hbytes
  have hline : c.bytes = lineAfter p w := hbytes
  have hdelim : (p.setParseStatus .getMoreData).parseDelimiter = [13, 10] :=
    hq.holds.parseDelimiter (by simp)
  have hfind : c.find (p.setParseStatus .getMoreData).parseDelimiter true 0 0 =
      first [13, 10] (lineAfter p w) := by
    rw [hdelim, ← hline]
    exact BChunks.find_eq_first hready'.holds.size_eq hready'.holds.counted.fits (by simp)
  have hsub : subParserWrite heap (p.setParseStatus .getMoreData) w =
      (p.setParseStatus .getMoreData).writeIntoParser (parse c) heap w := by
    rw [subParserWrite, happ]
  rw [SubParser.writeIntoParser_delimiter heap hq.holds.parseMode hw hq.holds.streamEnded happ,
    hfind] at hsub
  cases hfirst : first [13, 10] (lineAfter p w) with
  | none =>
      rw [hfirst] at hsub
      refine Or.inr (Or.inr ⟨hlt, _, hready.offer_stored heap hsub, rfl,
        ⟨hready', h64, h1024, ?_⟩, hline, rfl⟩)
      have : first [13, 10] c.bytes = none := by
        rw [hline]
        exact hfirst
      exact this
  | some pos =>
      rw [hfirst] at hsub
      have hend := lt_of_first_append (by simp) hnone hfirst
      have hle := add_length_le_of_first (by simp) hfirst
      have hlen : (lineAfter p w).length ≤ target := by
        rw [lineAfter, hsize, List.length_append]
        have := List.length_take_le (target - p.unparsedBuffer.bytes.length) w
        omega
      simp only [List.length_cons, List.length_nil] at hend hle
      have hprev : (p.setParseStatus .getMoreData).unparsedBuffer.size =
          p.unparsedBuffer.bytes.length := hready.holds.size_eq
      have hcount : (subSizeT pos (p.setParseStatus .getMoreData).unparsedBuffer.size + 2) % 2 ^ 64
          = pos + 2 - p.unparsedBuffer.bytes.length := by
        rw [hprev]
        exact SubParser.consumed_eq (by omega) (by omega)
      -- the settings that `parse()` starts from
      have hstart : ({ p.setParseStatus .getMoreData with
          unparsedBuffer := c } : SubParser Content).settings.parseDelimiter = [13, 10] := hdelim
      rw [← hline]
      by_cases herror : p.derived.parseHttpChunkSize (c.bytes.take pos) = 2 ^ 32 - 1
      · have hparse : parse c p.derived
            ({ p.setParseStatus .getMoreData with
              unparsedBuffer := c } : SubParser Content).settings
            ⟨c.bytes.take pos, p.delimiterFound⟩ = (p.derived,
              ({ p.setParseStatus .getMoreData with
                unparsedBuffer := c } : SubParser Content).settings, .error) := by
          simp only [parse, hready.currentMode]
          rw [if_pos herror]
        obtain ⟨-, -, -, h4, -⟩ := hready'.parsed c (c.bytes.take pos) hparse
        have hoffer := offer_eq heap hsub
        rw [if_pos (Or.inl h4)] at hoffer
        exact Or.inl ⟨_, hoffer, Or.inr ⟨pos, rfl, Or.inl herror⟩⟩
      rcases Nat.eq_zero_or_pos (p.derived.parseHttpChunkSize (c.bytes.take pos)) with hzero | hpos
      · have hparse : parse c p.derived
            ({ p.setParseStatus .getMoreData with
              unparsedBuffer := c } : SubParser Content).settings
            ⟨c.bytes.take pos, p.delimiterFound⟩ = (p.derived.writeEOFToOutStream,
              ({ p.setParseStatus .getMoreData with
                unparsedBuffer := c } : SubParser Content).settings, .gotoNextSubparser) := by
          simp only [parse, hready.currentMode]
          rw [if_neg herror, if_neg (by omega)]
        obtain ⟨-, -, h3, h4, h5⟩ := hready'.parsed c (c.bytes.take pos) hparse
        have hoffer := offer_eq heap hsub
        rcases heof : p.derived.outStream.writeEOF with _ | ⟨o, b⟩
        · rw [if_pos (Or.inr (by
            rw [h3]
            simp [writeEOFToOutStream, withOutStream, heof, hready.thrown]))] at hoffer
          exact Or.inl ⟨_, hoffer, Or.inr ⟨pos, rfl, Or.inr ⟨hzero, rfl⟩⟩⟩
        · have hout : p.derived.writeEOFToOutStream = { p.derived with outStream := o } := by
            simp [writeEOFToOutStream, withOutStream, heof, hready.thrown]
          rw [hout] at h3
          rw [h3, h4, h5, hstart, if_neg (by simp [hready.thrown]), List.length_cons,
            List.length_cons, List.length_nil, hcount] at hoffer
          refine Or.inr (Or.inl ⟨_, pos, rfl, hoffer, Or.inr ⟨hzero, ?_, o, b, rfl, h3⟩⟩)
          rw [finished, h4]
          rfl
      · have hparse : parse c p.derived
            ({ p.setParseStatus .getMoreData with
              unparsedBuffer := c } : SubParser Content).settings
            ⟨c.bytes.take pos, p.delimiterFound⟩ = ({ p.derived with currentMode := .chunkData },
              { ({ p.setParseStatus .getMoreData with
                  unparsedBuffer := c } : SubParser Content).settings.setParseMode .size with
                parseDataTargetSize := p.derived.parseHttpChunkSize (c.bytes.take pos) },
              .getMoreData) := by
          simp only [parse, hready.currentMode]
          rw [if_neg herror, if_pos hpos]
        obtain ⟨h1, h2, h3, h4, h5⟩ := hready'.parsed c (c.bytes.take pos) hparse
        have hoffer := offer_eq heap hsub
        rw [h3, h4, h5] at hoffer
        simp only [ParseSettings.setParseMode, hstart, List.length_cons, List.length_nil] at hoffer
        rw [hcount, if_neg (by simp [hready.thrown])] at hoffer
        refine Or.inr (Or.inl ⟨_, pos, rfl, hoffer, Or.inl ⟨hpos, herror, ?_, ⟨?_, ?_, ?_⟩, ?_,
          h3⟩⟩)
        · rw [finished, h4]
          rfl
        · exact ready_of_parsed h1 h2 (by simp [ParseSettings.setParseMode]) hstart
            (by rw [h3]; exact hready.plain) (by rw [h3]; exact hready.thrown) (by rw [h3])
        · rw [h2]
          exact hpos
        · exact parseHttpChunkSize_lt _ _
        · rw [h2]

/-! ## What is still to come -/

/-- A body from the size of the next chunk on. -/
def lines : List (List UInt8) → List UInt8
  | [] => [48, 13, 10, 13, 10]
  | d :: ds => printHex d.length ++ [13, 10] ++ (d ++ ([13, 10] ++ lines ds))

/-- The writes behind the first bytes of a stream. -/
def dropBytes (n : ℕ) : List (List UInt8) → List (List UInt8)
  | [] => []
  | w :: ws =>
    if n = 0 then w :: ws
    else if w.length ≤ n then dropBytes (n - w.length) ws
    else w.drop n :: ws

/-- The number of stretches of 64 KiB in which writes bring the data of chunks, when the size of
the first one comes first. -/
def dataStretches : List (List UInt8) → List (List UInt8) → ℕ
  | [], _ => 0
  | d :: ds, ws =>
    stretchesWithin d.length (dropBytes ((printHex d.length).length + 2) ws) +
      dataStretches ds (dropBytes (d.length + 2)
        (dropBytes ((printHex d.length).length + 2) ws))

theorem dropBytes_zero (ws : List (List UInt8)) : dropBytes 0 ws = ws := by
  cases ws with
  | nil => rfl
  | cons w ws => rw [dropBytes, if_pos rfl]

theorem dropBytes_cons {n : ℕ} {w : List UInt8} (hn : 0 < n) (hw : w.length ≤ n)
    (ws : List (List UInt8)) : dropBytes n (w :: ws) = dropBytes (n - w.length) ws := by
  rw [dropBytes, if_neg (by omega), if_pos hw]

theorem dropBytes_refeed {k : ℕ} {w : List UInt8} (hpos : 0 < k) (hk : k ≤ w.length) (m : ℕ)
    (ws : List (List UInt8)) : dropBytes m (refeed k w ws) = dropBytes (m + k) (w :: ws) := by
  rw [refeed]
  split
  · rw [dropBytes, dropBytes, if_neg (show ¬ m + k = 0 by omega), List.length_drop]
    by_cases hm : m = 0
    · rw [if_pos hm, if_neg (by omega), hm, Nat.zero_add]
    · rw [if_neg hm, List.drop_drop]
      by_cases hle : w.length - k ≤ m
      · rw [if_pos hle, if_pos (by omega)]
        congr 1
        omega
      · rw [if_neg hle, if_neg (by omega), Nat.add_comm]
  · rw [dropBytes_cons (by omega) (by omega)]
    congr 1
    omega

/-- What a call moves from the writes to the buffer does not change what comes behind it. -/
theorem dropBytes_moved {n k : ℕ} {u u' w : List UInt8} (hpos : 0 < k) (hk : k ≤ w.length)
    (hu : u'.length = u.length + k) (hn : u'.length ≤ n) (ws : List (List UInt8)) :
    dropBytes n (u' :: refeed k w ws) = dropBytes n (u :: w :: ws) := by
  rw [dropBytes_cons (by omega) hn, dropBytes_cons (by omega) (by omega), dropBytes_refeed hpos hk]
  congr 1
  omega

theorem dropBytes_cons_refeed {k : ℕ} {u w : List UInt8} (hpos : 0 < k) (hk : k ≤ w.length)
    (m : ℕ) (ws : List (List UInt8)) :
    dropBytes (m + (u.length + k)) (u :: w :: ws) = dropBytes m (refeed k w ws) := by
  rw [dropBytes_cons (by omega) (by omega), dropBytes_refeed hpos hk]
  congr 1
  omega

theorem dataStretches_nil_cons (ds ws : List (List UInt8)) :
    dataStretches ds ([] :: ws) = dataStretches ds ws := by
  cases ds with
  | nil => rfl
  | cons d ds =>
      rw [dataStretches, dataStretches, dropBytes_cons (by omega) (Nat.zero_le _), List.length_nil,
        Nat.sub_zero]

/-- Where in a body the sub-parser is, with the data of the chunks that are still to come. -/
inductive Phase where
  | line (ds : List (List UInt8))
  | data (d : List UInt8) (ds : List (List UInt8))
  | crlf (ds : List (List UInt8))

namespace Phase

/-- The text from the start of the phase on. -/
def text : Phase → List UInt8
  | line ds => lines ds
  | data d ds => d ++ ([13, 10] ++ lines ds)
  | crlf ds => [13, 10] ++ lines ds

/-- The chunks of which the size is still to come. -/
def chunks : Phase → List (List UInt8)
  | line ds => ds
  | data _ ds => ds
  | crlf ds => ds

/-- The data that has not reached the output stream. -/
def body : Phase → List UInt8
  | line ds => ds.flatten
  | data d ds => d ++ ds.flatten
  | crlf ds => ds.flatten

/-- The state of the sub-parser in the phase. -/
def State (p : SubParser Content) : Phase → Prop
  | line _ => ∃ target, Line p target
  | data d _ => Data p d.length
  | crlf _ => Crlf p

/-- No size that is still to come is the one that stands for an error. -/
def Sizes (ph : Phase) : Prop := ∀ d ∈ ph.chunks, d.length ≠ 2 ^ 32 - 1

/-- The stretches in which writes bring the data that is still to come, when `u` was read of
the phase. -/
def stretches (u : List UInt8) (ws : List (List UInt8)) : Phase → ℕ
  | line ds => dataStretches ds (u :: ws)
  | data d ds =>
    stretchesWithin (d.length - u.length) ws + dataStretches ds (dropBytes (d.length + 2) (u :: ws))
  | crlf ds => dataStretches ds (dropBytes 2 (u :: ws))

end Phase

/-- The sub-parser is in a phase, and its buffer with the stream make up the text of it. -/
structure Expects (p : SubParser Content) (ph : Phase) (stream : List UInt8) : Prop where
  state : ph.State p
  text : p.unparsedBuffer.bytes ++ stream = ph.text
  chunks : ∀ d ∈ ph.chunks, d ≠ [] ∧ d.length ≤ p.derived.securityMaxHttpChunkSize
  max : p.derived.securityMaxHttpChunkSize < 2 ^ 32

/-- The pieces of data in the output stream and in the buffer. -/
def pieces (p : SubParser Content) : ℕ :=
  p.derived.outStream.chunks +
    (if p.derived.currentMode = .chunkData then p.unparsedBuffer.chunksVector.length else 0)

/-- The pieces of data that the output stream would have with all that is still to come. -/
def expectedPieces (p : SubParser Content) (ph : Phase) (ws : List (List UInt8)) : ℕ :=
  pieces p + ph.stretches p.unparsedBuffer.bytes ws

/-- Nothing was lost, and what is in the buffer can still be written. -/
def Intact (p : SubParser Content) : Prop :=
  p.derived.outStream.Open ∧ pieces p ≤ 256 * 1024

/-- The output stream will have less than `n` bytes in the end. -/
def Spoiled (p : SubParser Content) (ph : Phase) (n : ℕ) : Prop :=
  (p.derived.outStream.Open ∧ 256 * 1024 < pieces p ∧
      p.derived.outStream.bytes.length + ph.body.length ≤ n) ∨
    p.derived.outStream.bytes.length + ph.body.length < n

/-- A call after which the body goes on. -/
structure GoesOn (p p' : SubParser Content) (w : List UInt8) (ws : List (List UInt8))
    (ph ph' : Phase) (k : ℕ) : Prop where
  expects : Expects p' ph' (refeed k w ws).flatten
  spoiled : ∀ n, Spoiled p ph n → Spoiled p' ph' n
  intact : Intact p →
    (Intact p' ∧ expectedPieces p' ph' (refeed k w ws) = expectedPieces p ph (w :: ws) ∧
      p'.derived.outStream.bytes ++ ph'.body = p.derived.outStream.bytes ++ ph.body ∧
      (ph'.Sizes ↔ ph.Sizes)) ∨
    (256 * 1024 < expectedPieces p ph (w :: ws) ∧
      Spoiled p' ph' (p.derived.outStream.bytes.length + ph.body.length))

/-- A call that ends the body. -/
structure Ends (p p' : SubParser Content) (w : List UInt8) (ws : List (List UInt8)) (ph : Phase)
    (k : ℕ) : Prop where
  taken : k + 2 = (w :: ws).flatten.length
  body : ph.body = []
  bytes : p'.derived.outStream.bytes = p.derived.outStream.bytes
  sizes : ph.Sizes
  stretches : ph.stretches p.unparsedBuffer.bytes (w :: ws) = 0
  pieces : pieces p ≤ 256 * 1024

theorem drop_of_append_eq {u s t : List UInt8} (h : u ++ s = t) {m : ℕ} (hm : u.length ≤ m) :
    s.drop (m - u.length) = t.drop m := by
  rw [← h, List.drop_append, List.drop_eq_nil_of_le hm, List.nil_append]

theorem take_of_append_eq {u w s t : List UInt8} (h : u ++ (w ++ s) = t) {m : ℕ}
    (hm : u.length ≤ m) (hle : m ≤ u.length + w.length) :
    u ++ w.take (m - u.length) = t.take m := by
  rw [← h, List.take_append, List.take_of_length_le hm,
    List.take_append_of_le_length (by omega)]

theorem pieces_eq_of_mode (hmode : p.derived.currentMode ≠ .chunkData) :
    pieces p = p.derived.outStream.chunks := by
  rw [pieces, if_neg hmode, Nat.add_zero]

/-! ## One call -/

section

variable {p' : SubParser Content} {ph ph' : Phase} {ws : List (List UInt8)} {k : ℕ}

/-- A call that leaves the output stream alone. -/
theorem goesOn_of_same (hexp : Expects p' ph' (refeed k w ws).flatten)
    (hout : p'.derived.outStream = p.derived.outStream) (hpieces : pieces p' = pieces p)
    (hbody : ph'.body = ph.body) (hstretches : ph'.stretches p'.unparsedBuffer.bytes
      (refeed k w ws) = ph.stretches p.unparsedBuffer.bytes (w :: ws))
    (hsizes : ph'.Sizes ↔ ph.Sizes) : GoesOn p p' w ws ph ph' k := by
  refine ⟨hexp, ?_, ?_⟩
  · intro n hn
    rw [Spoiled, hout, hpieces, hbody]
    exact hn
  · rintro ⟨hopen, hle⟩
    refine Or.inl ⟨⟨by rw [hout]; exact hopen, by rw [hpieces]; exact hle⟩, ?_, ?_, hsizes⟩
    · rw [expectedPieces, expectedPieces, hpieces, hstretches]
    · rw [hout, hbody]

theorem refeed_length (w : List UInt8) (ws : List (List UInt8)) : refeed w.length w ws = ws :=
  if_neg (lt_irrefl _)

/-- A call while the line end behind the data is awaited. -/
theorem step_crlf {ds : List (List UInt8)} (h : Expects p (.crlf ds) (w :: ws).flatten)
    (hw : w ≠ []) :
    ∃ p' k ph', offer heap p w = (p', some k) ∧ finished p' = false ∧
      GoesOn p p' w ws (.crlf ds) ph' k := by
  obtain ⟨hstate, htext, hchunks, hmax⟩ := h
  have hcrlf : Crlf p := hstate
  have hmode : p.derived.currentMode ≠ .chunkData := by
    rw [hcrlf.1.currentMode]
    simp
  rw [List.flatten_cons] at htext
  have hpos := List.length_pos_iff.mpr hw
  rcases offer_crlf heap hcrlf hw with ⟨hlt, p', hoffer, hfin, hcrlf', hbytes, hderived⟩ |
    ⟨hle, p', hoffer, hfin, hline, hbytes, hderived⟩
  · refine ⟨p', w.length, .crlf ds, hoffer, hfin, goesOn_of_same ?_ (by rw [hderived]) ?_ rfl
      ?_ Iff.rfl⟩
    · refine ⟨hcrlf', ?_, by rw [hderived]; exact hchunks, by rw [hderived]; exact hmax⟩
      rw [refeed_length, hbytes, List.append_assoc, htext]
    · rw [pieces_eq_of_mode hmode, pieces_eq_of_mode (by rw [hderived]; exact hmode), hderived]
    · have hlen : p'.unparsedBuffer.bytes.length = p.unparsedBuffer.bytes.length + w.length := by
        rw [hbytes, List.length_append]
      rw [Phase.stretches, Phase.stretches, dropBytes_moved hpos (le_refl _) hlen (by omega)]
  · have hlt := hcrlf.2
    refine ⟨p', _, .line ds, hoffer, hfin, goesOn_of_same ?_ (by rw [hderived]) ?_ rfl
      ?_ Iff.rfl⟩
    · refine ⟨⟨1024, hline⟩, ?_, by rw [hderived]; exact hchunks, by rw [hderived]; exact hmax⟩
      rw [flatten_refeed (by omega), List.flatten_cons, hbytes, List.nil_append,
        drop_of_append_eq htext hlt.le]
      rfl
    · rw [pieces_eq_of_mode hmode, pieces_eq_of_mode (by rw [hderived]; simp), hderived]
    · have hdrop := dropBytes_cons_refeed (k := 2 - p.unparsedBuffer.bytes.length)
        (u := p.unparsedBuffer.bytes) (w := w) (by omega) (by omega) 0 ws
      rw [dropBytes_zero, Nat.zero_add, Nat.add_sub_of_le hlt.le] at hdrop
      rw [Phase.stretches, Phase.stretches, hbytes, dataStretches_nil_cons, hdrop]

/-- A call while data is collected. -/
theorem step_data {d : List UInt8} {ds : List (List UInt8)}
    (h : Expects p (.data d ds) (w :: ws).flatten) (hw : w ≠ []) :
    (∃ p', offer heap p w = (p', none) ∧
      (Intact p → 256 * 1024 < expectedPieces p (.data d ds) (w :: ws))) ∨
    ∃ p' k ph', offer heap p w = (p', some k) ∧ finished p' = false ∧
      GoesOn p p' w ws (.data d ds) ph' k := by
  obtain ⟨hstate, htext, hchunks, hmax⟩ := h
  have hdata : Data p d.length := hstate
  have hmode : p.derived.currentMode = .chunkData := hdata.1.currentMode
  have hpieces : pieces p = p.derived.outStream.chunks +
      p.unparsedBuffer.chunksVector.length := by
    rw [pieces, if_pos hmode]
  have hmore : pieces p ≤ piecesAfter p w := by
    rw [hpieces, piecesAfter]
    omega
  have hleft := hdata.1.getSizeLeft
  have htotal : expectedPieces p (.data d ds) (w :: ws) = piecesAfter p w +
      (stretchesWithin (d.length - p.unparsedBuffer.bytes.length - w.length) ws +
        dataStretches ds (dropBytes (d.length + 2) (p.unparsedBuffer.bytes :: w :: ws))) := by
    rw [expectedPieces, hpieces, piecesAfter, hleft, Phase.stretches, stretchesWithin]
    omega
  have hpos := List.length_pos_iff.mpr hw
  rw [List.flatten_cons] at htext
  rcases offer_data heap hdata hw with ⟨p', hoffer, hover⟩ |
    ⟨hlt, p', hoffer, hfin, hdata', hbytes, hpieces', hderived⟩ |
    ⟨hge, p', hoffer, hfin, hcrlf, hbytes, hmax', hle, hopens⟩
  · refine Or.inl ⟨p', hoffer, fun hintact => ?_⟩
    have := hover hintact.1
    omega
  · have hmode' : p'.derived.currentMode = .chunkData := by
      rw [hderived]
      exact hmode
    have hafter : pieces p' = piecesAfter p w := by
      rw [pieces, if_pos hmode', hpieces']
    refine Or.inr ⟨p', w.length, .data d ds, hoffer, hfin, ?_, ?_, ?_⟩
    · refine ⟨hdata', ?_, by rw [hderived]; exact hchunks, by rw [hderived]; exact hmax⟩
      rw [refeed_length, hbytes, List.append_assoc, htext]
    · intro n hn
      rw [Spoiled, hafter, hderived]
      rcases hn with ⟨hopen, hover, hn⟩ | hn
      · exact Or.inl ⟨hopen, by omega, hn⟩
      · exact Or.inr hn
    · rintro ⟨hopen, hfits⟩
      by_cases hroom : piecesAfter p w ≤ 256 * 1024
      · refine Or.inl ⟨⟨by rw [hderived]; exact hopen, by omega⟩, ?_, by rw [hderived], Iff.rfl⟩
        have hlen : p'.unparsedBuffer.bytes.length = p.unparsedBuffer.bytes.length + w.length := by
          rw [hbytes, List.length_append]
        rw [htotal, expectedPieces, hafter, Phase.stretches,
          dropBytes_moved hpos (le_refl _) hlen (by omega), refeed_length, hlen, Nat.sub_sub]
      · refine Or.inr ⟨by omega, Or.inl ⟨by rw [hderived]; exact hopen, by omega, ?_⟩⟩
        rw [hderived]
  · have hcrlf' : pieces p' = p'.derived.outStream.chunks := by
      refine pieces_eq_of_mode ?_
      rw [hcrlf.1.currentMode]
      simp
    have hlt := hdata.2.1
    have hd : p.unparsedBuffer.bytes ++ w.take (d.length - p.unparsedBuffer.bytes.length) = d := by
      rw [take_of_append_eq htext hlt.le hge]
      exact List.take_left
    refine Or.inr ⟨p', _, .crlf ds, hoffer, hfin, ?_, ?_, ?_⟩
    · refine ⟨hcrlf, ?_, by rw [hmax']; exact hchunks, by rw [hmax']; exact hmax⟩
      rw [flatten_refeed (by omega), List.flatten_cons, hbytes, List.nil_append,
        drop_of_append_eq htext hlt.le]
      exact List.drop_left
    · intro n hn
      simp only [Spoiled, Phase.body, List.length_append] at hn ⊢
      rcases hn with ⟨hopen, hover, hn⟩ | hn
      · rcases hopens hopen with ⟨hroom, -⟩ | ⟨-, hlost⟩
        · omega
        · exact Or.inr (by omega)
      · exact Or.inr (by omega)
    · rintro ⟨hopen, -⟩
      rcases hopens hopen with ⟨hroom, hopen', hcount, hout⟩ | ⟨hover, hlost⟩
      · refine Or.inl ⟨⟨hopen', by rw [hcrlf']; exact hopen'.chunks_le⟩, ?_, ?_, Iff.rfl⟩
        · have hdrop := dropBytes_cons_refeed (k := d.length - p.unparsedBuffer.bytes.length)
            (u := p.unparsedBuffer.bytes) (w := w) (by omega) (by omega) 2 ws
          rw [Nat.add_sub_of_le hlt.le, Nat.add_comm] at hdrop
          rw [htotal, expectedPieces, hcrlf', hcount, Phase.stretches, hbytes,
            dropBytes_cons (by omega) (Nat.zero_le _), List.length_nil, Nat.sub_zero, hdrop,
            Nat.sub_eq_zero_of_le
              (show d.length - p.unparsedBuffer.bytes.length ≤ w.length by omega),
            stretchesWithin_zero, Nat.zero_add]
        · rw [hout, hd, List.append_assoc]
          rfl
      · refine Or.inr ⟨by omega, Or.inr ?_⟩
        · simp only [Phase.body, List.length_append]
          omega

/-- The first line of a body. -/
def firstSize : List (List UInt8) → ℕ
  | [] => 0
  | d :: _ => d.length

theorem lines_eq (ds : List (List UInt8)) :
    ∃ rest, lines ds = printHex (firstSize ds) ++ (13 :: [10] ++ rest) ∧
      (ds = [] → rest = [13, 10]) ∧
      (∀ d ds', ds = d :: ds' → rest = d ++ ([13, 10] ++ lines ds')) := by
  cases ds with
  | nil => exact ⟨[13, 10], rfl, fun _ => rfl, by simp⟩
  | cons d ds =>
      refine ⟨d ++ ([13, 10] ++ lines ds), ?_, by simp, ?_⟩
      · rw [lines, List.append_assoc]
        rfl
      · rintro d' ds' heq
        cases heq
        rfl

/-- The first line of a body ends behind the size of the first chunk. -/
theorem first_lines {ds : List (List UInt8)} (hlt : firstSize ds < 2 ^ 32) :
    first [13, 10] (lines ds) = some (printHex (firstSize ds)).length := by
  obtain ⟨rest, hlines, -⟩ := lines_eq ds
  have hno : (13 : UInt8) ∉ printHex (firstSize ds) := fun hmem =>
    forall_mem_printHex (P := fun x => x ≠ 13) (fun d hd => (hexDigit_spec d hd).2.2.2.2.1) hlt 13
      hmem rfl
  rw [hlines]
  exact first_append_cons hno rest

/-- The beginning of a body that holds the end of a line holds the size. -/
theorem take_of_first {ds : List (List UInt8)} {s t : List UInt8} {pos : ℕ}
    (hlt : firstSize ds < 2 ^ 32) (htext : s ++ t = lines ds) (hp : first [13, 10] s = some pos) :
    pos = (printHex (firstSize ds)).length ∧ s.take pos = printHex (firstSize ds) := by
  obtain ⟨rest, hlines, -⟩ := lines_eq ds
  have hall := first_append (by simp) hp t
  rw [htext, first_lines hlt, Option.some.injEq] at hall
  have hle := add_length_le_of_first (by simp) hp
  refine ⟨hall.symm, ?_⟩
  rw [← List.take_append_of_le_length (show pos ≤ s.length by omega), htext, hlines, ← hall,
    List.take_left]

/-- The size in a line is the one that was printed, unless it stands for an error. -/
theorem parseHttpChunkSize_printHex {c : Content} {n : ℕ}
    (hmax : c.securityMaxHttpChunkSize < 2 ^ 32)
    (hn : n ≤ c.securityMaxHttpChunkSize) : c.parseHttpChunkSize (printHex n) = n := by
  rw [parseHttpChunkSize, toUInt32_printHex (by omega)]
  exact if_neg (Nat.not_lt.mpr hn)

/-- A call while a line with a size is awaited. -/
theorem step_line {ds : List (List UInt8)} (h : Expects p (.line ds) (w :: ws).flatten)
    (hw : w ≠ []) :
    (∃ p', offer heap p w = (p', none) ∧ (Intact p → ¬ (Phase.line ds).Sizes)) ∨
    (∃ p' k, offer heap p w = (p', some k) ∧ finished p' = true ∧ Ends p p' w ws (.line ds) k) ∨
    ∃ p' k ph', offer heap p w = (p', some k) ∧ finished p' = false ∧
      GoesOn p p' w ws (.line ds) ph' k := by
  obtain ⟨⟨target, hline⟩, htext, hchunks, hmax⟩ := h
  have hmode : p.derived.currentMode ≠ .chunkData := by
    rw [hline.1.currentMode]
    simp
  have hsize : firstSize ds ≤ p.derived.securityMaxHttpChunkSize := by
    cases ds with
    | nil => exact Nat.zero_le _
    | cons d ds => exact (hchunks d (List.mem_cons_self ..)).2
  have hread := parseHttpChunkSize_printHex hmax hsize
  obtain ⟨rest, hlines, hlast, hnext⟩ := lines_eq ds
  have hlt : firstSize ds < 2 ^ 32 := by omega
  have hfirst := first_lines hlt
  have hshort := length_printHex_le hlt
  have htext' : p.unparsedBuffer.bytes ++ (w :: ws).flatten = lines ds := htext
  -- the line in the buffer is the beginning of the text
  have hafter : lineAfter p w ++ (w :: ws).flatten.drop (w.take p.unparsedBuffer.getSizeLeft).length
      = lines ds := by
    rw [lineAfter, SubParser.append_take_flatten, htext']
  have hpos : ∀ pos, first [13, 10] (lineAfter p w) = some pos →
      pos = (printHex (firstSize ds)).length ∧
        (lineAfter p w).take pos = printHex (firstSize ds) :=
    fun pos => take_of_first hlt hafter
  have hu := lt_of_first_append (by simp) hline.2.2.2 (by rw [htext']; exact hfirst)
  simp only [List.length_cons, List.length_nil] at hu
  have hlen : (lineAfter p w).length ≤ p.unparsedBuffer.bytes.length + w.length := by
    rw [lineAfter, List.length_append]
    have := List.length_take_le' p.unparsedBuffer.getSizeLeft w
    omega
  rcases offer_line heap hline hw with
    ⟨p', hoffer, hwhy⟩ |
    ⟨p', pos, hp, hoffer, ⟨hsome, herror, hfin, hdata, hempty, hderived⟩ |
      ⟨hzero, hfin, o, b, heof, hderived⟩⟩ |
    ⟨hroom, p', hoffer, hfin, hline', hbytes, hderived⟩
  · refine Or.inl ⟨p', hoffer, fun hintact hsizes => ?_⟩
    rcases hwhy with hfull | ⟨pos, hp, herror | ⟨-, heof⟩⟩
    · have := hline.2.1
      omega
    · rw [(hpos pos hp).2, hread] at herror
      cases ds with
      | nil => exact absurd herror (by simp [firstSize])
      | cons d ds => exact hsizes d (List.mem_cons_self ..) herror
    · obtain ⟨o, ho, -⟩ := hintact.1.writeEOF
      rw [heof] at ho
      cases ho
  · obtain ⟨hpos', htake⟩ := hpos pos hp
    rw [htake, hread] at hsome herror hdata
    obtain ⟨d, ds', rfl⟩ : ∃ d ds', ds = d :: ds' := by
      cases ds with
      | nil => exact absurd hsome (by simp [firstSize])
      | cons d ds' => exact ⟨d, ds', rfl⟩
    have hle := add_length_le_of_first (by simp) hp
    simp only [List.length_cons, List.length_nil] at hle
    have hnil : p'.unparsedBuffer.bytes = [] := by simp [BChunks.bytes, hempty]
    refine Or.inr (Or.inr ⟨p', _, .data d ds', hoffer, hfin, goesOn_of_same ?_ (by rw [hderived])
      ?_ rfl ?_ ?_⟩)
    · refine ⟨hdata, ?_, ?_, by rw [hderived]; exact hmax⟩
      · rw [flatten_refeed (by omega), drop_of_append_eq htext' (by omega), hpos', hlines,
          hnext d ds' rfl]
        rw [hnil, List.nil_append]
        rw [← List.drop_drop, List.drop_left]
        rfl
      · rw [hderived]
        exact fun e he => hchunks e (List.mem_cons_of_mem _ he)
    · rw [pieces_eq_of_mode hmode, pieces, hderived, hempty]
      simp
    · have hdrop := dropBytes_cons_refeed (k := pos + 2 - p.unparsedBuffer.bytes.length)
        (u := p.unparsedBuffer.bytes) (w := w) (by omega) (by omega) 0 ws
      rw [dropBytes_zero, Nat.zero_add, Nat.add_sub_of_le (by omega), hpos', firstSize] at hdrop
      rw [Phase.stretches, Phase.stretches, dataStretches, hdrop, hnil, List.length_nil,
        Nat.sub_zero, dropBytes_cons (by omega) (Nat.zero_le _), List.length_nil, Nat.sub_zero,
        hpos', firstSize]
    · constructor
      · intro hs e he
        rcases List.mem_cons.mp he with rfl | he
        · exact herror
        · exact hs e he
      · exact fun hs e he => hs e (List.mem_cons_of_mem _ he)
  · obtain ⟨hpos', htake⟩ := hpos pos hp
    rw [htake, hread] at hzero
    obtain rfl : ds = [] := by
      cases ds with
      | nil => rfl
      | cons d ds' =>
          have := List.length_pos_iff.mpr (hchunks d (List.mem_cons_self ..)).1
          simp only [firstSize] at hzero
          omega
    refine Or.inr (Or.inl ⟨p', _, hoffer, hfin, ?_, rfl, ?_, ?_, rfl, ?_⟩)
    · have htotal := congrArg List.length htext'
      rw [List.length_append] at htotal
      simp only [lines, firstSize, printHex, List.length_cons, List.length_nil] at htotal hpos' hu
      norm_num at hpos' hu
      omega
    · rw [hderived]
      exact congrArg BChunks.bytes (container_writeEOF heof)
    · exact fun d hd => absurd hd List.not_mem_nil
    · rw [pieces_eq_of_mode hmode]
      exact hline.1.plain.chunks_le
  · refine Or.inr (Or.inr ⟨p', _, .line ds, hoffer, hfin, goesOn_of_same ?_ (by rw [hderived])
      ?_ rfl ?_ Iff.rfl⟩)
    · refine ⟨⟨target, hline'⟩, ?_, by rw [hderived]; exact hchunks, by rw [hderived]; exact hmax⟩
      rw [flatten_refeed (List.length_take_le' _ _), hbytes]
      exact hafter
    · rw [pieces_eq_of_mode hmode, pieces_eq_of_mode (by rw [hderived]; exact hmode), hderived]
    · -- the end of the line is still to come
      have hu' := lt_of_first_append (by simp) hline'.2.2.2 (by rw [hbytes, hafter]; exact hfirst)
      have hleft := hline.1.getSizeLeft
      have hsome := List.length_pos_iff.mpr hw
      have hmoved : p'.unparsedBuffer.bytes.length = p.unparsedBuffer.bytes.length +
          (w.take p.unparsedBuffer.getSizeLeft).length := by
        rw [hbytes, lineAfter, List.length_append]
      have htaken : 0 < (w.take p.unparsedBuffer.getSizeLeft).length := by
        rw [List.length_take]
        omega
      simp only [List.length_cons, List.length_nil] at hu'
      rw [Phase.stretches, Phase.stretches]
      cases ds with
      | nil => rfl
      | cons d ds =>
          simp only [firstSize] at hu'
          rw [dataStretches, dataStretches,
            dropBytes_moved htaken (List.length_take_le' _ _) hmoved (by omega)]

/-- A call in any phase. -/
theorem step_of_expects (h : Expects p ph (w :: ws).flatten) (hw : w ≠ []) :
    (∃ p', offer heap p w = (p', none) ∧
      (Intact p → expectedPieces p ph (w :: ws) ≤ 256 * 1024 → ¬ ph.Sizes)) ∨
    (∃ p' k, offer heap p w = (p', some k) ∧ finished p' = true ∧ Ends p p' w ws ph k) ∨
    ∃ p' k ph', offer heap p w = (p', some k) ∧ finished p' = false ∧
      GoesOn p p' w ws ph ph' k := by
  cases ph with
  | line ds =>
      rcases step_line heap h hw with ⟨p', hp', hsizes⟩ | hends | hgoes
      · exact Or.inl ⟨p', hp', fun hintact _ => hsizes hintact⟩
      · exact Or.inr (Or.inl hends)
      · exact Or.inr (Or.inr hgoes)
  | data d ds =>
      rcases step_data heap h hw with ⟨p', hp', hroom⟩ | hgoes
      · exact Or.inl ⟨p', hp', fun hintact hr => absurd (hroom hintact) (Nat.not_lt.mpr hr)⟩
      · exact Or.inr (Or.inr hgoes)
  | crlf ds => exact Or.inr (Or.inr (step_crlf heap h hw))

/-- In every phase there is more to come. -/
theorem Expects.ne_nil {stream : List UInt8} (h : Expects p ph stream) : stream ≠ [] := by
  rintro rfl
  obtain ⟨hstate, htext, -⟩ := h
  have hlen := congrArg List.length htext
  rw [List.append_nil] at hlen
  cases ph with
  | line ds =>
      obtain ⟨target, hline⟩ := hstate
      obtain ⟨rest, hlines, -⟩ := lines_eq ds
      rw [List.append_nil] at htext
      have hnone := hline.2.2.2
      rw [show p.unparsedBuffer.bytes = lines ds from htext, hlines,
        first_eq_none_iff (by simp)] at hnone
      refine hnone (printHex (firstSize ds)).length ?_
      rw [OccursAt, List.drop_left]
      exact List.prefix_append _ _
  | data d ds =>
      have hlt := (show Data p d.length from hstate).2.1
      rw [hlen, Phase.text, List.length_append] at hlt
      omega
  | crlf ds =>
      have hlt := (show Crlf p from hstate).2
      rw [hlen, Phase.text, List.length_append] at hlt
      simp only [List.length_cons] at hlt
      omega

end

/-! ## Whole bodies -/

/-- The sub-parser in one of its three modes, whatever comes next. -/
def Chunking (p : SubParser Content) : Prop :=
  (∃ target, Line p target) ∨ (∃ n, Data p n) ∨ Crlf p

/-- A call that goes through takes a part of the write and leaves a container within its
limits. -/
theorem Chunking.offer {p' : SubParser Content} {k : ℕ} (h : Chunking p) (hw : w ≠ [])
    (hoffer : offer heap p w = (p', some k)) :
    1 ≤ k ∧ k ≤ w.length ∧ p'.derived.outStream.Plain ∧ (finished p' = false → Chunking p') := by
  have hpos := List.length_pos_iff.mpr hw
  rcases h with ⟨target, hline⟩ | ⟨n, hdata⟩ | hcrlf
  · have hlen : (lineAfter p w).length ≤ p.unparsedBuffer.bytes.length + w.length := by
      rw [lineAfter, List.length_append]
      have := List.length_take_le' p.unparsedBuffer.getSizeLeft w
      omega
    rcases offer_line heap hline hw with ⟨q, hq, -⟩ |
      ⟨q, pos, hp, hq, ⟨-, -, hfin, hdata, -, hderived⟩ | ⟨-, hfin, o, b, heof, hderived⟩⟩ |
      ⟨hlt, q, hq, hfin, hline', -, hderived⟩
    · rw [hq] at hoffer
      cases hoffer
    · rw [hq] at hoffer
      cases hoffer
      have h1 := lt_of_first_append (by simp) hline.2.2.2 hp
      have h2 := add_length_le_of_first (by simp) hp
      simp only [List.length_cons, List.length_nil] at h1 h2
      exact ⟨by omega, by omega, hdata.1.plain, fun _ => Or.inr (Or.inl ⟨_, hdata⟩)⟩
    · rw [hq] at hoffer
      cases hoffer
      have h1 := lt_of_first_append (by simp) hline.2.2.2 hp
      have h2 := add_length_le_of_first (by simp) hp
      simp only [List.length_cons, List.length_nil] at h1 h2
      refine ⟨by omega, by omega, ?_, fun hf => ?_⟩
      · rw [hderived]
        exact hline.1.plain.of_container (container_writeEOF heof)
      · rw [hfin] at hf
        cases hf
    · rw [hq] at hoffer
      cases hoffer
      have hleft := hline.1.getSizeLeft
      have htake := List.length_take_le' p.unparsedBuffer.getSizeLeft w
      refine ⟨?_, htake, hline'.1.plain, fun _ => Or.inl ⟨target, hline'⟩⟩
      rw [List.length_take]
      omega
  · rcases offer_data heap hdata hw with ⟨q, hq, -⟩ | ⟨-, q, hq, hfin, hdata', -⟩ |
      ⟨hge, q, hq, hfin, hcrlf, -⟩
    · rw [hq] at hoffer
      cases hoffer
    · rw [hq] at hoffer
      cases hoffer
      exact ⟨hpos, le_refl _, hdata'.1.plain, fun _ => Or.inr (Or.inl ⟨_, hdata'⟩)⟩
    · rw [hq] at hoffer
      cases hoffer
      have := hdata.2.1
      exact ⟨by omega, by omega, hcrlf.1.plain, fun _ => Or.inr (Or.inr hcrlf)⟩
  · rcases offer_crlf heap hcrlf hw with ⟨-, q, hq, hfin, hcrlf', -⟩ | ⟨hge, q, hq, hfin, hline, -⟩
    · rw [hq] at hoffer
      cases hoffer
      exact ⟨hpos, le_refl _, hcrlf'.1.plain, fun _ => Or.inr (Or.inr hcrlf')⟩
    · rw [hq] at hoffer
      cases hoffer
      have := hcrlf.2
      exact ⟨by omega, by omega, hline.1.plain, fun _ => Or.inl ⟨_, hline⟩⟩

/-- The run ended on the chunk of size zero, before the last line end of the stream, and the
output stream has got the body. -/
structure Received (before body stream : List UInt8) (r : Result (SubParser Content) UInt8) :
    Prop where
  stopped : r.outcome = .stopped
  consumed : taken r.calls + 2 = stream.length
  bytes : r.final.derived.outStream.bytes = before ++ body

/-- What holds of a run from a state between two writes on. -/
structure ChunkedRun (p : SubParser Content) (ws : List (List UInt8))
    (r : Result (SubParser Content) UInt8) : Prop where
  /-- The output stream does not outgrow its chunks. -/
  atMost : r.outcome = .stopped →
    r.final.derived.outStream.bytes.length ≤ 256 * 1024 * (64 * 1024)
  /-- What is lost does not come back. -/
  spoiled : ∀ ph, Expects p ph ws.flatten → ∀ n, Spoiled p ph n → r.outcome = .stopped →
    r.final.derived.outStream.bytes.length < n
  received_iff : ∀ ph, Expects p ph ws.flatten → Intact p →
    (Received p.derived.outStream.bytes ph.body ws.flatten r ↔
      ph.Sizes ∧ expectedPieces p ph ws ≤ 256 * 1024)

/-- A run over writes that bring the rest of a body. -/
theorem chunkedRun {fuel : ℕ} (h : Chunking p) {ws : List (List UInt8)} (hws : ∀ w ∈ ws, w ≠ [])
    (hfuel : ws.flatten.length ≤ fuel) :
    ChunkedRun p ws (feed (Content.offer heap) finished fuel p ws) := by
  refine feed_induction Chunking (fun _ _ _ => True) ChunkedRun ?progress ?keeps ?done ?failed
    ?stopped ?next fuel p ws h hws hfuel (fun _ _ => trivial)
  case progress =>
    intro p w ws p' k h hw _ hoffer
    obtain ⟨h1, hk, -⟩ := h.offer heap hw hoffer
    exact ⟨h1, hk⟩
  case keeps =>
    intro p w ws p' k h hw _ hoffer hstop
    exact (h.offer heap hw hoffer).2.2.2 hstop
  case done =>
    intro p _
    refine ⟨fun hstop => (by cases hstop), fun ph hexp => absurd rfl hexp.ne_nil,
      fun ph hexp => absurd rfl hexp.ne_nil⟩
  case failed =>
    intro p w ws p' h hw _ hoffer
    refine ⟨fun hstop => (by cases hstop), fun _ _ _ _ hstop => (by cases hstop), ?_⟩
    intro ph hexp hintact
    constructor
    · intro hreceived
      cases hreceived.stopped
    · rintro ⟨hsizes, hroom⟩
      rcases step_of_expects heap hexp hw with ⟨q, -, hwhy⟩ | ⟨q, k, hq, -⟩ | ⟨q, k, ph', hq, -⟩
      · exact absurd hsizes (hwhy hintact hroom)
      · rw [hq] at hoffer
        cases hoffer
      · rw [hq] at hoffer
        cases hoffer
  case stopped =>
    intro p w ws p' k h hw _ hoffer hstop
    have hplain := (h.offer heap hw hoffer).2.2.1
    have hends : ∀ ph, Expects p ph (w :: ws).flatten → Ends p p' w ws ph k := by
      intro ph hexp
      rcases step_of_expects heap hexp hw with ⟨q, hq, -⟩ | ⟨q, k', hq, -, hends⟩ |
        ⟨q, k', ph', hq, hfin, -⟩
      · rw [hq] at hoffer
        cases hoffer
      · rw [hq] at hoffer
        cases hoffer
        exact hends
      · rw [hq] at hoffer
        cases hoffer
        rw [hfin] at hstop
        cases hstop
    refine ⟨fun _ => hplain.length_bytes_le.trans (Nat.mul_le_mul_right _ hplain.chunks_le), ?_, ?_⟩
    · intro ph hexp n hspoiled _
      have hend := hends ph hexp
      have hpieces := hend.pieces
      simp only [hend.bytes]
      simp only [Spoiled, hend.body, List.length_nil, Nat.add_zero] at hspoiled
      rcases hspoiled with ⟨-, hover, -⟩ | hlt
      · omega
      · exact hlt
    · intro ph hexp _
      have hend := hends ph hexp
      constructor
      · intro _
        refine ⟨hend.sizes, ?_⟩
        rw [expectedPieces, hend.stretches]
        exact hend.pieces
      · intro _
        refine ⟨rfl, by simpa using hend.taken, ?_⟩
        rw [hend.body, List.append_nil]
        exact hend.bytes
  case next =>
    intro p w ws p' k r h hw _ hoffer hstop hr
    obtain ⟨-, hk, -⟩ := h.offer heap hw hoffer
    have hgoes : ∀ ph, Expects p ph (w :: ws).flatten → ∃ ph', GoesOn p p' w ws ph ph' k := by
      intro ph hexp
      rcases step_of_expects heap hexp hw with ⟨q, hq, -⟩ | ⟨q, k', hq, hfin, -⟩ |
        ⟨q, k', ph', hq, -, hgoes⟩
      · rw [hq] at hoffer
        cases hoffer
      · rw [hq] at hoffer
        cases hoffer
        rw [hfin] at hstop
        cases hstop
      · rw [hq] at hoffer
        cases hoffer
        exact ⟨ph', hgoes⟩
    refine ⟨hr.atMost, ?_, ?_⟩
    · intro ph hexp n hspoiled hs
      obtain ⟨ph', hgo⟩ := hgoes ph hexp
      exact hr.spoiled ph' hgo.expects n (hgo.spoiled n hspoiled) hs
    · intro ph hexp hintact
      obtain ⟨ph', hgo⟩ := hgoes ph hexp
      have hstream : (refeed k w ws).flatten.length + k = (w :: ws).flatten.length := by
        rw [flatten_refeed hk, List.length_drop, List.flatten_cons, List.length_append]
        omega
      rcases hgo.intact hintact with ⟨hintact', hexpected, hbody, hsizes⟩ | ⟨hover, hspoiled⟩
      · -- the rest of the run decides
        have hiff := hr.received_iff ph' hgo.expects hintact'
        rw [hsizes, hexpected] at hiff
        have hmove : Received p.derived.outStream.bytes ph.body (w :: ws).flatten
            ⟨⟨p, w, ws, some k⟩ :: r.calls, r.final, r.outcome⟩ ↔
            Received p'.derived.outStream.bytes ph'.body (refeed k w ws).flatten r := by
          constructor
          · rintro ⟨h1, h2, h3⟩
            rw [taken_cons, Option.getD_some] at h2
            exact ⟨h1, by omega, by rw [hbody]; exact h3⟩
          · rintro ⟨h1, h2, h3⟩
            refine ⟨h1, ?_, by rw [← hbody]; exact h3⟩
            rw [taken_cons, Option.getD_some]
            omega
        rw [hmove, hiff]
      · constructor
        · rintro ⟨h1, -, h3⟩
          have hlt := hr.spoiled ph' hgo.expects _ hspoiled h1
          simp only at h3
          rw [h3, List.length_append] at hlt
          omega
        · rintro ⟨-, hroom⟩
          omega

/-- The encoder writes the line end of a chunk in front of the next size; `m_pos` tells it
whether there is one to write. -/
theorem encode_eq_lines (ds : List (List UInt8)) (hds : ∀ d ∈ ds, d ≠ []) (pos : ℕ)
    (hpos : pos + ds.flatten.length < 2 ^ 64) :
    ContentChunkedTransformer.encode pos ds = (if pos = 0 then [] else [13, 10]) ++ lines ds := by
  induction ds generalizing pos with
  | nil =>
      rw [ContentChunkedTransformer.encode, ContentChunkedTransformer.write, if_pos rfl, lines]
      split
      · rfl
      · rfl
  | cons d ds ih =>
      have hd := hds d (List.mem_cons_self ..)
      have hsome := List.length_pos_iff.mpr hd
      rw [List.flatten_cons, List.length_append] at hpos
      have hnext : (pos + d.length) % 2 ^ 64 = pos + d.length := Nat.mod_eq_of_lt (by omega)
      rw [ContentChunkedTransformer.encode, ContentChunkedTransformer.write, if_neg hd]
      simp only [hnext]
      rw [ih (fun e he => hds e (List.mem_cons_of_mem _ he)) _ (by omega),
        if_neg (show ¬ pos + d.length = 0 by omega), lines]
      simp only [List.append_assoc]

/-- A `Content` that waits for a chunked body. -/
def withChunks (maxPostDataSize maxHttpChunkSize : ℕ) : SubParser Content :=
  setTransmitionMode (fresh maxPostDataSize maxHttpChunkSize) .chunks

theorem line_withChunks (maxPostDataSize maxHttpChunkSize : ℕ) :
    Line (withChunks maxPostDataSize maxHttpChunkSize) 64 := by
  refine ⟨⟨⟨⟨rfl, rfl, fun _ => rfl, fun h => (by cases h)⟩, rfl, rfl, ⟨?_, rfl, ?_⟩, ?_, ?_⟩, ?_,
    open_empty.toPlain, rfl, rfl⟩, by norm_num, by norm_num, first_nil (by simp)⟩
  all_goals simp [withChunks, setTransmitionMode, applySettings, fresh, SubParser.SmallChunks,
    BChunks.size]

/-- A run over the text of a body. -/
theorem received_iff_of_lines {maxPostDataSize maxHttpChunkSize fuel : ℕ}
    (hmax : maxHttpChunkSize < 2 ^ 32) {ds : List (List UInt8)}
    (hds : ∀ d ∈ ds, d ≠ [] ∧ d.length ≤ maxHttpChunkSize) {ws : List (List UInt8)}
    (hws : ∀ w ∈ ws, w ≠ []) (hcut : ws.flatten = lines ds) (hfuel : ws.flatten.length ≤ fuel) :
    Received [] ds.flatten ws.flatten (feed (Content.offer heap) finished fuel
        (withChunks maxPostDataSize maxHttpChunkSize) ws) ↔
      (∀ d ∈ ds, d.length ≠ 2 ^ 32 - 1) ∧ dataStretches ds ws ≤ 256 * 1024 := by
  have hline := line_withChunks maxPostDataSize maxHttpChunkSize
  have hrun := chunkedRun heap (Or.inl ⟨64, hline⟩) hws hfuel
  have hexp : Expects (withChunks maxPostDataSize maxHttpChunkSize) (.line ds) ws.flatten :=
    ⟨⟨64, hline⟩, hcut, hds, hmax⟩
  have hiff := hrun.received_iff _ hexp ⟨open_empty, Nat.zero_le _⟩
  have hpieces : expectedPieces (withChunks maxPostDataSize maxHttpChunkSize) (.line ds) ws =
      dataStretches ds ws := by
    rw [expectedPieces, pieces_eq_of_mode (by rw [hline.1.currentMode]; simp)]
    exact (Nat.zero_add _).trans (dataStretches_nil_cons ds ws)
  rw [hpieces] at hiff
  exact hiff

/-- **Chunked bodies.**  A list of non-empty writes, none larger than the receiver's limit,
goes through `ContentChunkedTransformer`, and what comes out arrives in any non-empty writes.
Then `Content` hands exactly the concatenation to its output stream and asks for the next
sub-parser on the chunk of size zero, without an error before it, exactly if there are less
than 2^64 bytes, no chunk has the size that stands for an error, and the data of the chunks
arrives in at most 256 Ki stretches of 64 KiB. -/
theorem chunked_received_iff (maxPostDataSize maxHttpChunkSize : ℕ)
    (hmax : maxHttpChunkSize < 2 ^ 32) (ds : List (List UInt8))
    (hds : ∀ d ∈ ds, d ≠ [] ∧ d.length ≤ maxHttpChunkSize) (ws : List (List UInt8))
    (hws : ∀ w ∈ ws, w ≠ []) (hcut : ws.flatten = ContentChunkedTransformer.encode 0 ds)
    (fuel : ℕ) (hfuel : ws.flatten.length ≤ fuel) :
    Received [] ds.flatten ws.flatten (feed (Content.offer heap) finished fuel
        (withChunks maxPostDataSize maxHttpChunkSize) ws) ↔
      ds.flatten.length < 2 ^ 64 ∧ (∀ d ∈ ds, d.length ≠ 2 ^ 32 - 1) ∧
        dataStretches ds ws ≤ 256 * 1024 := by
  have hlines : ds.flatten.length < 2 ^ 64 → ws.flatten = lines ds := by
    intro h64
    rw [hcut, encode_eq_lines ds (fun d hd => (hds d hd).1) 0 (by omega), if_pos rfl,
      List.nil_append]
  constructor
  · intro hreceived
    -- the output stream has no room for 2^64 bytes
    have hrun := chunkedRun heap
      (Or.inl ⟨64, line_withChunks maxPostDataSize maxHttpChunkSize⟩) hws hfuel
    have hmost := hrun.atMost hreceived.stopped
    rw [hreceived.bytes, List.nil_append] at hmost
    have h64 : ds.flatten.length < 2 ^ 64 := by omega
    exact ⟨h64, (received_iff_of_lines heap hmax hds hws (hlines h64) hfuel).mp hreceived⟩
  · rintro ⟨h64, hgood⟩
    exact (received_iff_of_lines heap hmax hds hws (hlines h64) hfuel).mpr hgood

/-- The chunks of two writes arrive in four, none of which ends with a chunk. -/
theorem chunked_received_cut :
    let ws := [[50, 13], [10, 7, 8, 13], [10, 49, 13, 10, 9, 13], [10, 48, 13, 10, 13, 10]]
    ws.flatten = ContentChunkedTransformer.encode 0 [[7, 8], [9]] ∧
      Received [] [7, 8, 9] ws.flatten
        (feed (Content.offer (fun _ _ => 0)) finished 18 (withChunks 16 16) ws) := by
  intro ws
  have henc : ws.flatten = ContentChunkedTransformer.encode 0 [[7, 8], [9]] := by
    simp [ws, ContentChunkedTransformer.encode, ContentChunkedTransformer.write, printHex,
      hexDigit]
  refine ⟨henc, ?_⟩
  exact (chunked_received_iff (fun _ _ => 0) 16 16 (by decide) [[7, 8], [9]] (by decide) ws
    (by decide) henc 18 (by decide)).mpr ⟨by decide, by decide, by
      simp [ws, dataStretches, dropBytes, printHex, stretchesWithin, stretches]⟩

theorem dropBytes_singles (n : ℕ) (s : List UInt8) :
    dropBytes n (s.map ([·])) = (s.drop n).map ([·]) := by
  induction s generalizing n with
  | nil => simp [dropBytes]
  | cons x s ih =>
      cases n with
      | zero => exact dropBytes_zero _
      | succ n =>
          rw [List.map_cons, dropBytes_cons (by omega) (by simp), List.length_singleton,
            Nat.add_sub_cancel, ih, List.drop_succ_cons]

theorem stretchesWithin_singles {n : ℕ} {s : List UInt8} (h : n ≤ s.length) :
    stretchesWithin n (s.map ([·])) = n := by
  induction s generalizing n with
  | nil =>
      rw [List.map_nil, stretchesWithin]
      exact (Nat.le_zero.mp h).symm
  | cons x s ih =>
      cases n with
      | zero => exact stretchesWithin_zero _
      | succ n =>
          rw [List.length_cons] at h
          rw [List.map_cons, stretchesWithin, List.length_singleton, Nat.add_sub_cancel,
            ih (by omega), List.take_of_length_le (by simp)]
          have : stretches [x].length = 1 := by simp [stretches]
          omega

/-- Byte by byte, every byte of data is a stretch of its own. -/
theorem dataStretches_singles (ds : List (List UInt8)) :
    dataStretches ds ((lines ds).map ([·])) = ds.flatten.length := by
  induction ds with
  | nil => rfl
  | cons d ds ih =>
      have hline : (lines (d :: ds)).drop ((printHex d.length).length + 2) =
          d ++ ([13, 10] ++ lines ds) := by
        rw [lines]
        exact List.drop_left' (by simp)
      have hdata : (d ++ ([13, 10] ++ lines ds)).drop (d.length + 2) = lines ds := by
        rw [← List.append_assoc]
        exact List.drop_left' (by simp)
      rw [dataStretches, dropBytes_singles, hline, dropBytes_singles, hdata, ih,
        stretchesWithin_singles (by simp), List.flatten_cons, List.length_append]

theorem flatten_singles (s : List UInt8) : (s.map ([·])).flatten = s := by
  induction s with
  | nil => rfl
  | cons x s ih => rw [List.map_cons, List.flatten_cons, ih, List.singleton_append]

/-- A chunk of more than 256 Ki bytes does not survive when it arrives byte by byte. -/
theorem not_received_singles {maxPostDataSize maxHttpChunkSize : ℕ}
    (hmax : maxHttpChunkSize < 2 ^ 32) {d : List UInt8} (hd : 256 * 1024 < d.length)
    (hle : d.length ≤ maxHttpChunkSize) :
    ¬ Received [] d (ContentChunkedTransformer.encode 0 [d])
      (feed (Content.offer heap) finished (ContentChunkedTransformer.encode 0 [d]).length
        (withChunks maxPostDataSize maxHttpChunkSize)
        ((ContentChunkedTransformer.encode 0 [d]).map ([·]))) := by
  intro hreceived
  have hflat : [d].flatten = d := by
    rw [List.flatten_cons, List.flatten_nil, List.append_nil]
  have hds : ∀ e ∈ [d], e ≠ [] ∧ e.length ≤ maxHttpChunkSize := by
    intro e he
    rw [List.mem_singleton.mp he]
    exact ⟨List.ne_nil_of_length_pos (by omega), hle⟩
  have henc : ContentChunkedTransformer.encode 0 [d] = lines [d] := by
    rw [encode_eq_lines _ (fun e he => (hds e he).1) 0 (by rw [hflat]; omega), if_pos rfl,
      List.nil_append]
  have hstream := flatten_singles (lines [d])
  have hsome : ∀ w ∈ (lines [d]).map ([·]), w ≠ [] := by
    intro w hw
    obtain ⟨x, -, rfl⟩ := List.mem_map.mp hw
    exact List.cons_ne_nil x []
  have hiff := @received_iff_of_lines heap maxPostDataSize maxHttpChunkSize _ hmax _ hds _ hsome
    hstream (le_of_eq (congrArg List.length hstream))
  rw [hstream, dataStretches_singles, hflat] at hiff
  rw [henc] at hreceived
  have := (hiff.mp hreceived).2
  omega

/-- 256 KiB and one byte are well within the limit on the size of a chunk. -/
theorem chunk_of_single_bytes_lost :
    256 * 1024 + 1 ≤ 16 * 1024 * 1024 ∧
      ¬ Received [] (List.replicate (256 * 1024 + 1) 0)
        (ContentChunkedTransformer.encode 0 [List.replicate (256 * 1024 + 1) 0])
        (feed (Content.offer (fun _ _ => 0)) finished
          (ContentChunkedTransformer.encode 0 [List.replicate (256 * 1024 + 1) 0]).length
          (withChunks (17 * 1024 * 1024) (16 * 1024 * 1024))
          ((ContentChunkedTransformer.encode 0 [List.replicate (256 * 1024 + 1) 0]).map
            ([·]))) := by
  refine ⟨by norm_num, not_received_singles (fun _ _ => 0) (by norm_num) ?_ ?_⟩
  · rw [List.length_replicate]
    norm_num
  · rw [List.length_replicate]
    norm_num

end Content

end Mantids
