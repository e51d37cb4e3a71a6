/-
# Messages

The HTTP server reads requests and the HTTP client reads responses, each with a `Parser` of three
sub-parsers: a line, headers and a body of which the headers say the length.  A message that keeps
to the limits is read, in whatever writes it arrives and whatever stands behind it.

* `MessageText` — a message as it stands on the wire;
* `Current` — the writes of a parser go to one of its sub-parsers;
* `MessageReader` — a parser that reads messages, with what it does between the sub-parsers;
* `MessageReader.Coming` — a parser that has the rest of a message before it, with a bound on the
  rounds that end with something left of the write;
* `round_line`, `round_headers`, `round_body` — a round in each of the stages;
* `MessageReader.received` — the statement about all writes.

A round leaves something of its write only if it ends a line, so that the lines of a message bound
the rounds of a write.  The body goes into a container that has room for so many pieces; the writes
and the stretches of 64 KiB are counted for that.  What the line and the headers mean is left to the
server and to the client.
-/
import Mantids.HttpAnswer

namespace Mantids

open Occurrence

/-! ## A line that is coming -/

namespace SubParser

variable {σ : Type*} {parse : Parse σ} (heap : ℕ → ℕ → UInt8)
variable {st : ParseSettings} {p p' : SubParser σ} {w later l rest : List UInt8}

/-- Less has arrived than the line with its line break. -/
theorem length_lt_of_coming {u : List UInt8} (hnone : first [13, 10] u = none)
    (hl : first [13, 10] l = none) (hcoming : u ++ later = l ++ 13 :: 10 :: rest) :
    u.length < l.length + 2 := by
  apply lt_of_first_append (t := later) (by decide) hnone
  rw [hcoming]
  exact first_pair (by decide) hl rest

/-- What a write does to a line that is coming: it is kept, or it completes the line. -/
inductive LineComes (parse : Parse σ) (st : ParseSettings) (p : SubParser σ)
    (w later l rest : List UInt8) (p' : SubParser σ) : Option ℕ → Prop
  | kept (holds : Holds st p') (hbytes : p'.unparsedBuffer.bytes = p.unparsedBuffer.bytes ++ w)
      (hnone : first [13, 10] (p.unparsedBuffer.bytes ++ w) = none)
      (hderived : p'.derived = p.derived) (hstatus : p'.parseStatus = p.parseStatus) :
      LineComes parse st p w later l rest p' (some w.length)
  | line (n : ℕ) (hn : n ≤ w.length) (holds : Holds st p') (hbytes : p'.unparsedBuffer.bytes = [])
      (hshown : Shown parse p p' l) (hrest : w.drop n ++ later = rest) :
      LineComes parse st p w later l rest p' (some n)

variable (later rest) in
/-- A line that fits in the buffer is not refused. -/
theorem Holds.lineComes (h : Holds st p) (hkeep : KeepsSettings parse)
    (hmode : st.parseMode = .delimiter) (hdelim : st.parseDelimiter = [13, 10])
    (hM : st.parseDataTargetSize ≤ 128 * 1024) (hw : w ≠ [])
    (hnone : first [13, 10] p.unparsedBuffer.bytes = none) (hl : first [13, 10] l = none)
    (hfits : l.length + 2 ≤ st.parseDataTargetSize)
    (hcoming : p.unparsedBuffer.bytes ++ (w ++ later) = l ++ 13 :: 10 :: rest) :
    LineComes parse st p w later l rest (p.write parse heap w).1 (p.write parse heap w).2 := by
  have hshort := length_lt_of_coming hnone hl hcoming
  have hleft := h.getSizeLeft
  have hwritten := h.lineWritten parse heap hkeep hmode hdelim (by omega) hw hnone
  generalize p.write parse heap w = r at hwritten ⊢
  obtain ⟨p', n⟩ := r
  have hsplit : p.unparsedBuffer.bytes ++ w.take p.unparsedBuffer.getSizeLeft ++
      (w.drop p.unparsedBuffer.getSizeLeft ++ later) = l ++ 13 :: 10 :: rest := by
    rw [List.append_assoc, ← List.append_assoc (w.take _), List.take_append_drop, hcoming]
  cases hwritten with
  | refused hwhy =>
      rcases hwhy with hzero | hlimit
      · omega
      · exact absurd hlimit (h.not_chunkLimit hM w)
  | line q hfirst hfitsq holds hbytes hshown =>
      obtain ⟨htaken, hline, hle⟩ := taken_of_line hnone hfirst
      have hwhole := first_append (by decide) hfirst (w.drop p.unparsedBuffer.getSizeLeft ++ later)
      rw [hsplit, first_pair (by decide) hl] at hwhole
      obtain rfl := Option.some.inj hwhole
      have hpiece : (p.unparsedBuffer.bytes ++ w.take p.unparsedBuffer.getSizeLeft).take l.length =
          l := by
        have hin := add_length_le_of_first (by decide) hfirst
        have htake := congrArg (List.take l.length) hsplit
        rw [List.take_left, List.take_append_of_le_length (by simp at hin ⊢; omega)] at htake
        exact htake
      rw [hpiece] at hshown htaken
      refine .line _ hle holds hbytes hshown ?_
      have hall : p.unparsedBuffer.bytes ++ w.take (l.length + 2 - p.unparsedBuffer.bytes.length) ++
          (w.drop (l.length + 2 - p.unparsedBuffer.bytes.length) ++ later) =
            l ++ [13, 10] ++ rest := by
        rw [List.append_assoc, ← List.append_assoc (w.take _), List.take_append_drop, hcoming,
          List.append_assoc]
        rfl
      rw [htaken] at hall
      exact List.append_cancel_left hall
  | kept hpos hfirst holds hbytes hderived hstatus =>
      -- a full buffer would hold the line with its line break
      have hlt := length_lt_of_coming hfirst hl hsplit
      have hall : w.take p.unparsedBuffer.getSizeLeft = w := by
        apply List.take_of_length_le
        rw [List.length_append, List.length_take] at hlt
        omega
      rw [hall] at hfirst hbytes ⊢
      exact .kept holds hbytes hfirst hderived hstatus

end SubParser

/-! ## Messages -/

/-- A message as it stands on the wire: its line, the lines of its headers and its body. -/
structure MessageText where
  line : List UInt8
  lines : List (List UInt8)
  body : List UInt8

namespace MessageText

variable (tags : ℕ → List UInt8) (m : MessageText)

/-- The bytes of a message. -/
def bytes : List UInt8 := m.line ++ 13 :: 10 :: (MimeSubHeader.block m.lines ++ m.body)

/-- What its headers are read as. -/
def headers : MimeSubHeader := m.lines.foldl (MimeSubHeader.parseOptionValue tags) {}

/-- The lines are lines, and everything fits in the buffers. -/
structure Fits (maxLineSize maxPostDataSize : ℕ) : Prop where
  unbroken : first [13, 10] m.line = none
  lineFits : m.line.length + 2 ≤ maxLineSize
  isLine : ∀ l ∈ m.lines, MimeSubHeader.Line l
  linesFit : ∀ l ∈ m.lines, l.length + 2 ≤ 2 * 1024
  bodyFits : m.body.length ≤ maxPostDataSize

end MessageText

/-- The writes that come to a parser, up to one that fails. -/
def ParserClass.receive {π : Type*} (C : ParserClass π) (s : π) : List (List UInt8) → π
  | [] => s
  | w :: ws =>
    match C.write s w with
    | (s, some _) => C.receive s ws
    | (s, none) => s

/-! ## Readers -/

section

variable {π σ τ : Type*} {C : ParserClass π}

/-- While `At` relates the state of a parser to a sub-parser, this is the current one. -/
structure Current (C : ParserClass π)
    (write : SubParser τ → List UInt8 → SubParser τ × Written) (At : SubParser τ → π → Prop) :
    Prop where
  hasParser {p : SubParser τ} {s : π} (h : At p s) : C.hasParser s = true
  parseStatus {p : SubParser τ} {s : π} (h : At p s) : C.parseStatus s = p.parseStatus
  writes {p : SubParser τ} {s : π} (h : At p s) (buf : List UInt8) :
    ∃ s', C.writeIntoParser s buf = (s', (write (p.setParseStatus .getMoreData) buf).2) ∧
      At (write (p.setParseStatus .getMoreData) buf).1 s'

/-- What a write into the current sub-parser does. -/
theorem Current.taken {write : SubParser τ → List UInt8 → SubParser τ × Written}
    {At : SubParser τ → π → Prop} (h : Current C write At) {p p' : SubParser τ} {s : π}
    {buf : List UInt8} {n : ℕ} (hat : At p s)
    (hwrite : write (p.setParseStatus .getMoreData) buf = (p', .bytes n)) :
    ∃ s', C.writeIntoParser s buf = (s', .bytes n) ∧ At p' s' ∧
      C.parseStatus s' = p'.parseStatus := by
  obtain ⟨s', hinto, hat'⟩ := h.writes hat buf
  rw [hwrite] at hinto hat'
  exact ⟨s', hinto, hat', h.parseStatus hat'⟩

/-- A parser that reads a message: where it stands, and what it does behind the line, behind the
headers and behind the body of this message. -/
structure MessageReader (C : ParserClass π) (parse : Parse σ) (tags : ℕ → List UInt8)
    (heap : ℕ → ℕ → UInt8) (m : MessageText) (maxPostDataSize maxHttpChunkSize : ℕ) where
  AtLine : SubParser σ → π → Prop
  AtHeaders : SubParser MimeSubHeader → π → Prop
  AtBody : SubParser Content → π → Prop
  Done : π → Prop
  /-- The settings of the sub-parser of the line, and its state in front of the line and behind
  it. -/
  settings : ParseSettings
  initial : σ
  value : σ
  /-- The headers that are there before any is read. -/
  initialHeaders : MimeSubHeader
  parseMode : settings.parseMode = .delimiter
  parseDelimiter : settings.parseDelimiter = [13, 10]
  parseDataTargetSize : settings.parseDataTargetSize ≤ 128 * 1024
  keepsSettings : SubParser.KeepsSettings parse
  parses (st : ParseSettings) (found : List UInt8) :
    parse initial st ⟨m.line, found⟩ = (value, st, .gotoNextSubparser)
  currentLine : Current C (SubParser.writeIntoParser parse heap) AtLine
  currentHeaders : Current C (SubParser.writeIntoParser (MimeSubHeader.parse tags) heap) AtHeaders
  currentBody : Current C (Content.writeIntoParser heap) AtBody
  done_hasParser {s : π} (h : Done s) : C.hasParser s = false
  change_line {p : SubParser σ} {s : π} (h : AtLine p s) (hvalue : p.derived = value) :
    ∃ s', C.changeToNextParser s = (s', true) ∧
      AtHeaders (SubParser.start MimeSubHeader.settings initialHeaders) s'
  change_headers {p : SubParser MimeSubHeader} {s : π} (h : AtHeaders p s)
    (hheaders : p.derived = m.lines.foldl (MimeSubHeader.parseOptionValue tags) initialHeaders) :
    Done (C.changeToNextParser s).1 ∨
      m.body ≠ [] ∧ ∃ s', C.changeToNextParser s = (s', true) ∧
        AtBody (Content.withContentLength maxPostDataSize maxHttpChunkSize m.body.length) s'
  change_body {p : SubParser Content} {s : π} (h : AtBody p s)
    (hbody : p.derived.outStream.bytes = m.body) : Done (C.changeToNextParser s).1

end

namespace MessageReader

open MimeSubHeader

variable {π σ : Type*} {C : ParserClass π} {parse : Parse σ} {tags : ℕ → List UInt8}
  {heap : ℕ → ℕ → UInt8} {m : MessageText} {maxPostDataSize maxHttpChunkSize : ℕ}
  (R : MessageReader C parse tags heap m maxPostDataSize maxHttpChunkSize)

/-! ## A message that is coming -/

/-- A parser that has the rest of a message before it, and so many writes; no more rounds than the
first number end with something left of their write. -/
inductive Coming (more : List UInt8) (writes : ℕ) : ℕ → π → List UInt8 → Prop
  /-- The line is next. -/
  | line {s : π} {rest : List UInt8} (p : SubParser σ) (stage : R.AtLine p s)
      (holds : SubParser.Holds R.settings p)
      (unbroken : first [13, 10] p.unparsedBuffer.bytes = none) (derived : p.derived = R.initial)
      (hroom : writes + m.body.length / (64 * 1024) ≤ 256 * 1024)
      (hrest : p.unparsedBuffer.bytes ++ rest = m.bytes ++ more) :
      Coming more writes (m.lines.length + 2) s rest
  /-- Some lines of the headers are still to come. -/
  | headers {s : π} {rest : List UInt8} (p : SubParser MimeSubHeader)
      (read todo : List (List UInt8)) (stage : R.AtHeaders p s)
      (holds : SubParser.Holds MimeSubHeader.settings p)
      (unbroken : first [13, 10] p.unparsedBuffer.bytes = none)
      (derived : p.derived = read.foldl (parseOptionValue tags) R.initialHeaders)
      (hlines : m.lines = read ++ todo)
      (hroom : writes + m.body.length / (64 * 1024) ≤ 256 * 1024)
      (hrest : p.unparsedBuffer.bytes ++ rest = block todo ++ (m.body ++ more)) :
      Coming more writes (todo.length + 1) s rest
  /-- A part of the body is still to come. -/
  | body {s : π} {rest : List UInt8} (p : SubParser Content) (missing : List UInt8)
      (stage : R.AtBody p s) (waiting : Content.Waiting p) (isOpen : p.derived.outStream.Open)
      (hbody : m.body = p.derived.outStream.bytes ++ missing)
      (hleft : missing.length = Content.bytesLeft p)
      (hroom : p.derived.outStream.chunks + writes + missing.length / (64 * 1024) ≤ 256 * 1024)
      (hrest : rest = missing ++ more) :
      Coming more writes 0 s rest

/-- What a round does with a message that is coming, in a write with the given bytes and in front of
the given ones. -/
inductive Advances (more : List UInt8) (writes k : ℕ) (buf later : List UInt8) (s : π) :
    Round → Prop
  /-- The write is taken, and the message goes on. -/
  | waits (h : R.Coming more writes k s later) :
      Advances more writes k buf later s (.answer buf.length)
  /-- A line has ended. -/
  | next (n k' : ℕ) (hn : n ≤ buf.length) (hk : k' < k)
      (h : R.Coming more (writes + 1) k' s (buf.drop n ++ later)) (ρ : Round)
      (hρ : ρ = if n = buf.length then .answer n else .left n) :
      Advances more writes k buf later s ρ
  /-- The message has been read. -/
  | done (ρ : Round) (hρ : ∀ n, ρ ≠ .left n) (h : R.Done s) :
      Advances more writes k buf later s ρ

variable {R} {more : List UInt8} {writes k n : ℕ} {s : π} {rest buf later : List UInt8}

/-- Fewer writes leave more room. -/
theorem Coming.mono (h : R.Coming more (writes + 1) k s rest) : R.Coming more writes k s rest := by
  cases h with
  | line p stage holds unbroken derived hroom hrest =>
      exact .line p stage holds unbroken derived (by omega) hrest
  | headers p read todo stage holds unbroken derived hlines hroom hrest =>
      exact .headers p read todo stage holds unbroken derived hlines (by omega) hrest
  | body p missing stage waiting isOpen hbody hleft hroom hrest =>
      exact .body p missing stage waiting isOpen hbody hleft (by omega) hrest

/-- A message that is coming is not complete. -/
theorem Coming.rest_ne_nil {maxLineSize : ℕ} (hm : m.Fits maxLineSize maxPostDataSize)
    (h : R.Coming more writes k s rest) : rest ≠ [] := by
  rintro rfl
  cases h with
  | line p stage holds unbroken derived hroom hrest =>
      have hcoming : p.unparsedBuffer.bytes ++ [] =
          m.line ++ 13 :: 10 :: (block m.lines ++ m.body ++ more) := by
        rw [hrest, MessageText.bytes, List.append_assoc]
        rfl
      have hlt := SubParser.length_lt_of_coming unbroken hm.unbroken hcoming
      have hlen := congrArg List.length hrest
      simp only [MessageText.bytes, List.length_append, List.length_cons, List.length_nil] at hlen
      omega
  | headers p read todo stage holds unbroken derived hlines hroom hrest =>
      rw [List.append_nil] at hrest
      rw [hrest] at unbroken
      cases todo with
      | nil => exact absurd unbroken (by rw [first_append (by decide) first_block_nil]; decide)
      | cons l todo =>
          have hl := hm.isLine l (by rw [hlines]; simp)
          rw [first_append (by decide) (first_block_cons hl todo)] at unbroken
          cases unbroken
  | body p missing stage waiting isOpen hbody hleft hroom hrest =>
      have hpos := waiting.pos
      rw [(List.append_eq_nil_iff.mp hrest.symm).1, List.length_nil] at hleft
      omega

/-- A round behind which the message has been read. -/
theorem advances_done (h : R.Done s) (changed : Bool) :
    R.Advances more writes k buf later s
      (if changed = false then .failed
        else if C.hasParser s = false ∨ n = buf.length then .answer n else .left n) := by
  refine .done _ (fun n => ?_) h
  rw [if_pos (Or.inl (R.done_hasParser h))]
  split <;> simp

/-- A round behind which the next sub-parser is current. -/
theorem advances_next (hparser : C.hasParser s = true) {k' : ℕ} (hn : n ≤ buf.length) (hk : k' < k)
    (h : R.Coming more (writes + 1) k' s (buf.drop n ++ later)) :
    R.Advances more writes k buf later s
      (if true = false then .failed
        else if C.hasParser s = false ∨ n = buf.length then .answer n else .left n) := by
  rw [if_neg (by decide), hparser]
  simp only [Bool.true_eq_false, false_or]
  exact .next n k' hn hk h _ rfl

/-- A write of a sub-parser that takes lines. -/
theorem writeIntoParser_of_write {τ : Type*} {parse : Parse τ} {p p' : SubParser τ}
    (h : p.write parse heap buf = (p', some n)) :
    p.writeIntoParser parse heap buf = (p', .bytes n) := by
  rcases hinto : p.writeIntoParser parse heap buf with ⟨q, x⟩
  simp only [SubParser.write, hinto, Prod.mk.injEq] at h
  obtain ⟨rfl, hx⟩ := h
  rw [HTTPv1Connection.eq_bytes_of_toOption hx]

/-! ## The line -/

/-- A round in the line. -/
theorem round_line (hm : m.Fits R.settings.parseDataTargetSize maxPostDataSize) {p : SubParser σ}
    (stage : R.AtLine p s) (holds : SubParser.Holds R.settings p)
    (unbroken : first [13, 10] p.unparsedBuffer.bytes = none) (derived : p.derived = R.initial)
    (hroom : writes + 1 + m.body.length / (64 * 1024) ≤ 256 * 1024)
    (hrest : p.unparsedBuffer.bytes ++ (buf ++ later) = m.bytes ++ more) (hbuf : buf ≠ []) :
    R.Advances more writes (m.lines.length + 2) buf later (C.parseRound s buf).1
      (C.parseRound s buf).2 := by
  have hparser := R.currentLine.hasParser stage
  have hcomes := (holds.setParseStatus .getMoreData).lineComes heap later
    (block m.lines ++ (m.body ++ more)) R.keepsSettings R.parseMode R.parseDelimiter
    R.parseDataTargetSize hbuf unbroken hm.unbroken hm.lineFits (by
      rw [SubParser.unparsedBuffer_setParseStatus, hrest, MessageText.bytes]
      simp only [List.append_assoc, List.cons_append])
  rcases hwrite : (p.setParseStatus .getMoreData).write parse heap buf with ⟨p', x⟩
  rw [hwrite] at hcomes
  cases hcomes with
  | kept holds' hbytes hnone hderived hstatus =>
      obtain ⟨s', hinto, stage', hstat⟩ :=
        R.currentLine.taken stage (writeIntoParser_of_write hwrite)
      rw [ParserClass.parseRound_more hparser hinto (hstat.trans hstatus), if_pos rfl]
      refine .waits (.line p' stage' holds' ?_ (hderived.trans derived) (by omega) ?_)
      · rw [hbytes]
        exact hnone
      · rw [hbytes, SubParser.unparsedBuffer_setParseStatus, List.append_assoc, hrest]
  | line n hn holds' hbytes hshown hdrop =>
      obtain ⟨s', hinto, stage', hstat⟩ :=
        R.currentLine.taken stage (writeIntoParser_of_write hwrite)
      obtain ⟨-, st, hderived, hstatus⟩ := hshown
      rw [SubParser.derived_setParseStatus, derived, R.parses] at hderived hstatus
      obtain ⟨s'', hchange, stage''⟩ := R.change_line stage' hderived
      rw [ParserClass.parseRound_next hparser hinto (hstat.trans hstatus) hchange]
      refine advances_next (R.currentHeaders.hasParser stage'') hn (Nat.lt_succ_self _)
        (.headers _ [] m.lines stage'' (SubParser.holds_start _ _) (first_nil (by decide)) rfl rfl
          hroom ?_)
      rw [hdrop]
      rfl

/-! ## The headers -/

/-- The empty line ends the headers. -/
theorem round_emptyLine {maxLineSize : ℕ} (hm : m.Fits maxLineSize maxPostDataSize)
    (h64 : maxPostDataSize < 2 ^ 64) {p p' : SubParser MimeSubHeader} (stage : R.AtHeaders p s)
    (derived : p.derived = m.lines.foldl (parseOptionValue tags) R.initialHeaders)
    (hroom : writes + 1 + m.body.length / (64 * 1024) ≤ 256 * 1024)
    (hwrite : (p.setParseStatus .getMoreData).write (MimeSubHeader.parse tags) heap buf =
      (p', some n)) (hn : n ≤ buf.length) (hdrop : buf.drop n ++ later = m.body ++ more)
    (hshown : SubParser.Shown (MimeSubHeader.parse tags) (p.setParseStatus .getMoreData) p' []) :
    R.Advances more writes 1 buf later (C.parseRound s buf).1 (C.parseRound s buf).2 := by
  have hparser := R.currentHeaders.hasParser stage
  obtain ⟨s', hinto, stage', hstat⟩ :=
    R.currentHeaders.taken stage (writeIntoParser_of_write hwrite)
  obtain ⟨hderived, hfinished⟩ := derived_of_end hshown
  have hgoes := hstat.trans (beq_iff_eq.mp hfinished)
  rcases R.change_headers stage' (hderived.trans derived) with hdone |
    ⟨hbody, s'', hchange, stage''⟩
  · rw [ParserClass.parseRound_next hparser hinto hgoes rfl]
    exact advances_done hdone _
  · rw [ParserClass.parseRound_next hparser hinto hgoes hchange]
    obtain ⟨hwaiting, hleft, hout⟩ := Content.waiting_withContentLength maxHttpChunkSize
      (List.length_pos_iff.mpr hbody) hm.bodyFits h64
    refine advances_next (R.currentBody.hasParser stage'') hn Nat.one_pos
      (.body _ m.body stage'' hwaiting ?_ ?_ hleft.symm ?_ hdrop)
    · rw [hout]
      exact StreamableChunks.open_empty
    · rw [hout]
      rfl
    · rw [hout, show ({} : StreamableChunks).chunks = 0 from rfl, Nat.zero_add]
      exact hroom

/-- A round in the headers. -/
theorem round_headers {maxLineSize : ℕ} (hm : m.Fits maxLineSize maxPostDataSize)
    (h64 : maxPostDataSize < 2 ^ 64) {p : SubParser MimeSubHeader} {read todo : List (List UInt8)}
    (stage : R.AtHeaders p s) (holds : SubParser.Holds MimeSubHeader.settings p)
    (unbroken : first [13, 10] p.unparsedBuffer.bytes = none)
    (derived : p.derived = read.foldl (parseOptionValue tags) R.initialHeaders)
    (hlines : m.lines = read ++ todo)
    (hroom : writes + 1 + m.body.length / (64 * 1024) ≤ 256 * 1024)
    (hrest : p.unparsedBuffer.bytes ++ (buf ++ later) = block todo ++ (m.body ++ more))
    (hbuf : buf ≠ []) :
    R.Advances more writes (todo.length + 1) buf later (C.parseRound s buf).1
      (C.parseRound s buf).2 := by
  have hparser := R.currentHeaders.hasParser stage
  -- the line that is coming: the next one of the headers, or the empty one
  obtain ⟨l, rest, hl, hfits, hcoming, hcase⟩ : ∃ l rest, first [13, 10] l = none ∧
      l.length + 2 ≤ 2 * 1024 ∧ block todo ++ (m.body ++ more) = l ++ 13 :: 10 :: rest ∧
      ((l = [] ∧ todo = [] ∧ rest = m.body ++ more) ∨
        ∃ todo', l ≠ [] ∧ todo = l :: todo' ∧ rest = block todo' ++ (m.body ++ more)) := by
    cases todo with
    | nil => exact ⟨[], _, first_nil (by decide), by decide, rfl, Or.inl ⟨rfl, rfl, rfl⟩⟩
    | cons l todo' =>
        have hmem : l ∈ m.lines := by
          rw [hlines]
          simp
        refine ⟨l, _, (hm.isLine l hmem).2, hm.linesFit l hmem, ?_,
          Or.inr ⟨todo', (hm.isLine l hmem).1, rfl, rfl⟩⟩
        rw [block_cons, List.append_assoc]
        rfl
  have hcomes := (holds.setParseStatus .getMoreData).lineComes heap later rest
    (keepsSettings_parse tags) rfl rfl (by decide) hbuf unbroken hl hfits (by
      rw [SubParser.unparsedBuffer_setParseStatus, hrest, hcoming])
  rcases hwrite : (p.setParseStatus .getMoreData).write (MimeSubHeader.parse tags) heap buf with
    ⟨p', x⟩
  rw [hwrite] at hcomes
  cases hcomes with
  | kept holds' hbytes hnone hderived hstatus =>
      obtain ⟨s', hinto, stage', hstat⟩ :=
        R.currentHeaders.taken stage (writeIntoParser_of_write hwrite)
      rw [ParserClass.parseRound_more hparser hinto (hstat.trans hstatus), if_pos rfl]
      refine .waits (.headers p' read todo stage' holds' ?_ (hderived.trans derived) hlines
        (by omega) ?_)
      · rw [hbytes]
        exact hnone
      · rw [hbytes, SubParser.unparsedBuffer_setParseStatus, List.append_assoc, hrest]
  | line n hn holds' hbytes hshown hdrop =>
      rcases hcase with ⟨rfl, rfl, rfl⟩ | ⟨todo', hne, rfl, rfl⟩
      · rw [List.append_nil] at hlines
        rw [← hlines] at derived
        exact round_emptyLine hm h64 stage derived hroom hwrite hn hdrop hshown
      · obtain ⟨s', hinto, stage', hstat⟩ :=
          R.currentHeaders.taken stage (writeIntoParser_of_write hwrite)
        obtain ⟨hderived, -⟩ := derived_of_line hshown hne
        obtain ⟨-, st, -, hstatus⟩ := hshown
        rw [parse_line tags hne] at hstatus
        rw [ParserClass.parseRound_more hparser hinto (hstat.trans hstatus)]
        refine .next n (todo'.length + 1) hn (Nat.lt_succ_self _) (.headers p' (read ++ [l]) todo'
          stage' holds' ?_ ?_ ?_ hroom ?_) _ rfl
        · rw [hbytes]
          exact first_nil (by decide)
        · rw [hderived, SubParser.derived_setParseStatus, derived, List.foldl_append]
          rfl
        · rw [hlines, List.append_assoc]
          rfl
        · rw [hbytes, hdrop]
          rfl

/-! ## The body -/

/-- A write into a body that the container has room for. -/
theorem content_taken (heap : ℕ → ℕ → UInt8) {p : SubParser Content} {missing : List UInt8}
    (waiting : Content.Waiting p) (isOpen : p.derived.outStream.Open)
    (hleft : missing.length = Content.bytesLeft p) (hbuf : buf ≠ [])
    (hroom : p.derived.outStream.chunks +
      StreamableChunks.stretches (buf.take missing.length).length ≤ 256 * 1024) :
    ∃ p', Content.writeIntoParser heap (p.setParseStatus .getMoreData) buf =
        (p', .bytes (buf.take missing.length).length) ∧
      p'.parseStatus ≠ .error ∧
      (p'.parseStatus = .gotoNextSubparser ↔ missing.length ≤ buf.length) ∧
      (buf.length < missing.length →
        Content.Waiting p' ∧ Content.bytesLeft p' = missing.length - buf.length) ∧
      p'.derived.outStream.Open ∧
      p'.derived.outStream.bytes = p.derived.outStream.bytes ++ buf.take missing.length ∧
      p'.derived.outStream.chunks = p.derived.outStream.chunks +
        StreamableChunks.stretches (buf.take missing.length).length := by
  rw [hleft] at hroom ⊢
  rcases Content.offer_cases heap waiting hbuf with ⟨q, hq, hover⟩ | ⟨p', hp', hfinished, hmore, -,
    hopens⟩
  · exact absurd (hover isOpen) (Nat.not_lt.mpr hroom)
  rcases hopens isOpen with ⟨-, hopen, hbytes, hchunks⟩ | ⟨hover, -⟩
  rotate_left
  · exact absurd hover (Nat.not_lt.mpr hroom)
  have hfin : p'.parseStatus = .gotoNextSubparser ↔ Content.bytesLeft p ≤ buf.length := by
    rw [← hfinished]
    exact beq_iff_eq.symm
  rw [Content.offer] at hp'
  rcases hwrite : Content.writeIntoParser heap (p.setParseStatus .getMoreData) buf with ⟨q, x⟩
  simp only [hwrite, Prod.mk.injEq] at hp'
  obtain ⟨rfl, hx⟩ := hp'
  by_cases herror : q.parseStatus = .error
  · rw [if_pos herror] at hx
    cases hx
  · rw [if_neg herror] at hx
    exact ⟨q, by rw [HTTPv1Connection.eq_bytes_of_toOption hx], herror, hfin, hmore, hopen, hbytes,
      hchunks⟩

/-- A round in the body. -/
theorem round_body {p : SubParser Content} {missing : List UInt8} (stage : R.AtBody p s)
    (waiting : Content.Waiting p) (isOpen : p.derived.outStream.Open)
    (hbody : m.body = p.derived.outStream.bytes ++ missing)
    (hleft : missing.length = Content.bytesLeft p)
    (hroom : p.derived.outStream.chunks + (writes + 1) + missing.length / (64 * 1024) ≤ 256 * 1024)
    (hrest : buf ++ later = missing ++ more) (hbuf : buf ≠ []) :
    R.Advances more writes 0 buf later (C.parseRound s buf).1 (C.parseRound s buf).2 := by
  have hparser := R.currentBody.hasParser stage
  have hfits : p.derived.outStream.chunks +
      StreamableChunks.stretches (buf.take missing.length).length ≤ 256 * 1024 := by
    have hle := List.length_take_le missing.length buf
    rw [StreamableChunks.stretches]
    omega
  obtain ⟨p', hwrite, hnot, hends, hmore, hopen, hbytes, hchunks⟩ :=
    content_taken heap waiting isOpen hleft hbuf hfits
  obtain ⟨s', hinto, stage', hstat⟩ := R.currentBody.taken stage hwrite
  by_cases hall : missing.length ≤ buf.length
  · have hpart : buf.take missing.length = missing := by
      have htake := congrArg (List.take missing.length) hrest
      rwa [List.take_left, List.take_append_of_le_length hall] at htake
    rw [ParserClass.parseRound_next hparser hinto (hstat.trans (hends.mpr hall)) rfl]
    apply advances_done
    apply R.change_body stage'
    rw [hbytes, hpart, hbody]
  · have hlt : buf.length < missing.length := not_le.mp hall
    obtain ⟨rest, rfl⟩ : ∃ rest, missing = buf ++ rest := by
      have htake := congrArg (List.take buf.length) hrest
      rw [List.take_left, List.take_append_of_le_length hlt.le] at htake
      refine ⟨missing.drop buf.length, ?_⟩
      calc missing = missing.take buf.length ++ missing.drop buf.length :=
            (List.take_append_drop buf.length missing).symm
        _ = buf ++ missing.drop buf.length := by rw [← htake]
    rw [List.append_assoc, List.append_cancel_left_eq] at hrest
    have hwhole : buf.take (buf ++ rest).length = buf := List.take_of_length_le hlt.le
    rw [hwhole] at hinto hbytes hchunks
    obtain ⟨hwaiting, hleft'⟩ := hmore hlt
    have hstatus : p'.parseStatus = .getMoreData := by
      cases hq : p'.parseStatus with
      | error => exact absurd hq hnot
      | getMoreData => rfl
      | gotoNextSubparser => exact absurd (hends.mp hq) hall
    rw [ParserClass.parseRound_more hparser hinto (hstat.trans hstatus), if_pos rfl]
    refine .waits (.body p' rest stage' hwaiting hopen ?_ ?_ ?_ hrest)
    · rw [hbody, hbytes, List.append_assoc]
    · rw [hleft', List.length_append]
      omega
    · rw [List.length_append] at hroom
      rw [hchunks, StreamableChunks.stretches]
      omega

/-! ## Writes -/

/-- A round in any of the stages. -/
theorem Coming.advances (hm : m.Fits R.settings.parseDataTargetSize maxPostDataSize)
    (h64 : maxPostDataSize < 2 ^ 64) (h : R.Coming more (writes + 1) k s (buf ++ later))
    (hbuf : buf ≠ []) :
    R.Advances more writes k buf later (C.parseRound s buf).1 (C.parseRound s buf).2 := by
  cases h with
  | line p stage holds unbroken derived hroom hrest =>
      exact round_line hm stage holds unbroken derived hroom hrest hbuf
  | headers p read todo stage holds unbroken derived hlines hroom hrest =>
      exact round_headers hm h64 stage holds unbroken derived hlines hroom hrest hbuf
  | body p missing stage waiting isOpen hbody hleft hroom hrest =>
      exact round_body stage waiting isOpen hbody hleft hroom hrest hbuf

/-- The rounds of a write: the message has been read, or the write is taken whole and the rest of
the message is still to come. -/
theorem parseData_coming (hm : m.Fits R.settings.parseDataTargetSize maxPostDataSize)
    (h64 : maxPostDataSize < 2 ^ 64) (ttl : ℕ) (hk : k < ttl)
    (h : R.Coming more (writes + 1) k s (buf ++ later)) (hbuf : buf ≠ []) :
    R.Done (C.parseData ttl s buf).1 ∨
      (C.parseData ttl s buf).2 = some buf.length ∧
        ∃ k' ≤ k, R.Coming more writes k' (C.parseData ttl s buf).1 later := by
  induction ttl generalizing s k buf with
  | zero => exact absurd hk (Nat.not_lt_zero k)
  | succ ttl ih =>
      have hadvances := h.advances hm h64 hbuf
      rcases hround : C.parseRound s buf with ⟨s', ρ⟩
      rw [hround] at hadvances
      cases hadvances with
      | waits hcoming =>
          rw [ParserClass.parseData_answer hround]
          exact Or.inr ⟨rfl, k, le_rfl, hcoming⟩
      | next n k' hn hlt hcoming _ hρ =>
          replace hround := hround.trans (congrArg (Prod.mk s') hρ)
          by_cases hall : n = buf.length
          · rw [if_pos hall, hall] at hround
            rw [ParserClass.parseData_answer hround]
            rw [hall, List.drop_length, List.nil_append] at hcoming
            exact Or.inr ⟨rfl, k', hlt.le, hcoming.mono⟩
          · rw [if_neg hall] at hround
            rw [ParserClass.parseData_left hround]
            have hrest : buf.drop n ≠ [] := by
              rw [Ne, List.drop_eq_nil_iff]
              omega
            rcases ih (by omega) hcoming hrest with hdone | ⟨htaken, k'', hle, hlater⟩
            · exact Or.inl hdone
            · refine Or.inr ⟨?_, k'', hle.trans hlt.le, hlater⟩
              rw [htaken, List.length_drop, Option.map_some, Nat.sub_add_cancel hn]
      | done _ hρ hdone =>
          refine Or.inl ?_
          cases ρ with
          | failed =>
              rw [ParserClass.parseData_failed hround]
              exact hdone
          | answer n =>
              rw [ParserClass.parseData_answer hround]
              exact hdone
          | left n => exact absurd rfl (hρ n)

end MessageReader

/-- Without a current sub-parser nothing changes. -/
theorem ParserClass.receive_of_not_hasParser {π : Type*} {C : ParserClass π} {s : π}
    (hparser : C.hasParser s = false) (ws : List (List UInt8)) : C.receive s ws = s := by
  induction ws with
  | nil => rfl
  | cons w ws ih =>
      have hwrite : (C.write s w).1 = s := by
        rw [ParserClass.write, ParserClass.parseData_of_not_hasParser hparser]
      rw [ParserClass.receive]
      rcases hw : C.write s w with ⟨s', x⟩
      rw [hw] at hwrite
      obtain rfl := hwrite
      cases x with
      | none => rfl
      | some n => exact ih

namespace MessageReader

variable {π σ : Type*} {C : ParserClass π} {parse : Parse σ} {tags : ℕ → List UInt8}
  {heap : ℕ → ℕ → UInt8} {m : MessageText} {maxPostDataSize maxHttpChunkSize : ℕ}
  {R : MessageReader C parse tags heap m maxPostDataSize maxHttpChunkSize} {more : List UInt8}
  {k : ℕ} {s : π} {ws : List (List UInt8)}

/-- Writes that bring the rest of a message. -/
theorem receive_coming (hm : m.Fits R.settings.parseDataTargetSize maxPostDataSize)
    (h64 : maxPostDataSize < 2 ^ 64) (hws : ∀ w ∈ ws, w ≠ []) (hk : k ≤ C.maxTTL)
    (h : R.Coming more ws.length k s ws.flatten) : R.Done (C.receive s ws) := by
  induction ws generalizing s k with
  | nil => exact absurd rfl (h.rest_ne_nil hm)
  | cons w ws ih =>
      rw [List.length_cons, List.flatten_cons] at h
      have hwrite := parseData_coming hm h64 _ (Nat.lt_succ_of_le hk) h
        (hws w (List.mem_cons_self ..))
      rw [ParserClass.receive, ParserClass.write]
      rcases hdata : C.parseData (C.maxTTL + 1) s w with ⟨s', x⟩
      rw [hdata] at hwrite
      rcases hwrite with hdone | ⟨hx, k', hle, hcoming⟩
      · cases x with
        | none => exact hdone
        | some n =>
            show R.Done (C.receive s' ws)
            rw [ParserClass.receive_of_not_hasParser (R.done_hasParser hdone)]
            exact hdone
      · obtain rfl : x = some w.length := hx
        exact ih (fun v hv => hws v (List.mem_cons_of_mem w hv)) (hle.trans hk) hcoming

/-- **A message that keeps to the limits is read**, in whatever writes it arrives, and whatever
stands behind it. -/
theorem received (hm : m.Fits R.settings.parseDataTargetSize maxPostDataSize)
    (h64 : maxPostDataSize < 2 ^ 64) (hlines : m.lines.length + 2 ≤ C.maxTTL)
    (hstart : R.AtLine (SubParser.start R.settings R.initial) s) (hws : ∀ w ∈ ws, w ≠ [])
    (hroom : ws.length + m.body.length / (64 * 1024) ≤ 256 * 1024)
    (hbytes : ws.flatten = m.bytes ++ more) : R.Done (C.receive s ws) := by
  apply receive_coming hm h64 hws hlines
  exact .line _ hstart (SubParser.holds_start _ _) (first_nil (by decide)) rfl hroom hbytes

end MessageReader

end Mantids
