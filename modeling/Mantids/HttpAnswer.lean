/-
# A request is answered once

The three stages of a connection answer early on several errors, and the parser goes on with what is
left of a write.  Over a whole connection there is one answer at most:

* `Handled` — the bytes that have arrived when `procHTTPClientContent` was called;
* `AnsweredOnce` — what is true of a connection at any time;
* `AtRequestLine`, `AtHeaders`, `AtContent` — the three stages, with the bytes that led there;
* `goes_requestLine`, `goes_headers`, `goes_content` — a round of the parser in each of them, and
  `goes_requestLine_ended`, `goes_headers_ended`, `goes_content_ended` — one at the end of the
  stream;
* `answered_once` — the statement about all connections.

An empty write is the end of the stream.  The parsers take what they have for a whole line then, so
that the headers may end without an empty line.  What is said of the bytes in front of a body is
said of connections without an empty write; the rest is said of all of them.
-/
import Mantids.HttpConnection

namespace Mantids

open Occurrence

/-! ## Bodies behind the end of the stream -/

namespace SubParser

variable {σ : Type*} (parse : Parse σ)

/-- In `PARSE_MODE_DIRECT` it does not matter that the stream has ended. -/
theorem parseDirect_withEnded (p : SubParser σ) (ended : Bool) (buf : List UInt8) :
    (p.withEnded ended).parseDirect parse buf =
      ((p.parseDirect parse buf).1.withEnded ended, (p.parseDirect parse buf).2) := by
  rw [parseDirect, appendToUnparsedBuffer_withEnded, parseDirect]
  rcases p.appendToUnparsedBuffer buf with ⟨q, _ | n⟩
  · rfl
  · have hcall : ((q.withEnded ended).callParse parse q.unparsedBuffer.bytes).clearUnparsed =
        ((q.callParse parse q.unparsedBuffer.bytes).clearUnparsed).withEnded ended := rfl
    simp only [unparsedBuffer_withEnded, hcall]
    by_cases hlt : (q.callParse parse q.unparsedBuffer.bytes).clearUnparsed.unparsedBuffer.maxSize <
        (q.callParse parse q.unparsedBuffer.bytes).unparsedBuffer.size
    · rw [if_pos hlt]
      exact if_pos hlt
    · rw [if_neg hlt]
      exact if_neg hlt

end SubParser

namespace Content

variable (heap : ℕ → ℕ → UInt8) {p : SubParser Content} {buf : List UInt8}

theorem writeIntoParser_withEnded (hmode : p.parseMode = .direct) (hbuf : buf ≠ []) (ended : Bool) :
    writeIntoParser heap (p.withEnded ended) buf =
      ((writeIntoParser heap p buf).1.withEnded ended, (writeIntoParser heap p buf).2) := by
  have hsub : subParserWrite heap (p.withEnded ended) buf =
      ((subParserWrite heap p buf).1.withEnded ended, (subParserWrite heap p buf).2) := by
    have hmode' : (p.withEnded ended).parseMode = .direct := hmode
    simp only [subParserWrite, SubParser.writeIntoParser, if_neg hbuf, hmode, hmode',
      SubParser.appendToUnparsedBuffer_withEnded, SubParser.unparsedBuffer_withEnded,
      SubParser.parseDirect_withEnded]
  rw [writeIntoParser, hsub, writeIntoParser]
  rcases subParserWrite heap p buf with ⟨q, n⟩
  by_cases hthrown : q.derived.thrown = true
  · simp only [hthrown, if_true]
    exact if_pos hthrown
  · simp only [hthrown]
    exact if_neg hthrown

/-- The end of the stream does not complete a body. -/
theorem writeIntoParser_ended (h : Waiting (p.withEnded false)) :
    ∃ p', writeIntoParser heap (p.setParseStatus .getMoreData) [] = (p', .bytes 0) ∧
      p'.parseStatus = .getMoreData ∧ Waiting (p'.withEnded false) ∧
        bytesLeft p' = bytesLeft p := by
  have hpos : 0 < bytesLeft p := h.pos
  have hempty : p.unparsedBuffer = { maxSize := bytesLeft p } := h.receiving.unparsedBuffer
  have hmode : p.parseMode = .direct := h.receiving.parseMode
  have hcurrent : p.derived.currentMode = .contentLength := h.receiving.currentMode
  have hthrown : p.derived.thrown = false := h.receiving.thrown
  have hleft : p.unparsedBuffer.getSizeLeft = bytesLeft p := h.receiving.getSizeLeft
  have hbytes : p.unparsedBuffer.bytes = [] := by rw [hempty]; rfl
  have hsize : p.unparsedBuffer.size = 0 := by rw [hempty]; rfl
  -- `parse()` is shown no data and leaves everything as it is
  have hparse : ∀ st, parse p.unparsedBuffer p.derived st ⟨[], p.delimiterFound⟩ =
      (p.derived, st, .getMoreData) := by
    intro st
    have hkept : p.derived.appendToOutStream p.unparsedBuffer [] = p.derived := by
      simp [appendToOutStream, BChunks.appendTo, withOutStream]
    simp only [parse, hcurrent, hleft, if_pos hpos, hkept]
  have hsub : subParserWrite heap (p.setParseStatus .getMoreData) [] =
      ((p.setParseStatus .getMoreData).withEnded true).parseDirect (parse p.unparsedBuffer) [] := by
    simp only [subParserWrite, SubParser.appendToUnparsedBuffer_nil,
      SubParser.writeIntoParser, if_true, SubParser.withEnded, SubParser.setParseStatus, hmode]
  have hcall : SubParser.callParse (parse p.unparsedBuffer)
      ((p.setParseStatus .getMoreData).withEnded true) [] =
        { p with
          streamEnded := true
          parseStatus := .getMoreData
          seen := p.seen ++ [⟨[], p.delimiterFound⟩] } := by
    have hshown := hparse ((p.setParseStatus .getMoreData).withEnded true).settings
    rw [SubParser.callParse_of_settings (p := (p.setParseStatus .getMoreData).withEnded true)
      (congrArg (fun r => r.2.1) hshown)]
    simp only [SubParser.withEnded, SubParser.setParseStatus] at hshown ⊢
    rw [hshown]
  have hclear : p.unparsedBuffer.clear = p.unparsedBuffer := by rw [hempty]; rfl
  refine ⟨{ p with
    streamEnded := true
    parseStatus := .getMoreData
    seen := p.seen ++ [⟨[], p.delimiterFound⟩] }, ?_, rfl, ?_, rfl⟩
  · rw [writeIntoParser, hsub, SubParser.parseDirect, SubParser.appendToUnparsedBuffer_nil]
    simp only [SubParser.unparsedBuffer_withEnded, SubParser.unparsedBuffer_setParseStatus, hbytes,
      hcall, SubParser.clearUnparsed, hclear, hsize, Nat.not_lt_zero, if_false, Nat.sub_zero,
        hthrown]
    rfl
  · exact ⟨⟨hmode, rfl, hempty, hcurrent, hthrown⟩, hpos, h.fits, h.plain⟩

end Content

namespace HTTPv1Connection

open MimeSubHeader

variable (H : Handlers) (tags : ℕ → List UInt8) (heap : ℕ → ℕ → UInt8) (clean : Prop)

/-! ## What is said of a connection -/

/-- A request that the server does not refuse. -/
structure Accepted (maxPostDataSize : ℕ) (s : HTTPv1Connection) : Prop where
  version : s.requestLine.derived.httpVersion.majorVersion = 1
  host : 1 ≤ s.requestLine.derived.httpVersion.minorVersion → s.virtualHost ≠ []
  length : s.contentLength ≤ maxPostDataSize

/-- The request line and the headers are what the given lines say. -/
structure RequestRead (s : HTTPv1Connection) (line : List UInt8) (lines : List (List UInt8)) :
    Prop where
  unbroken : first [13, 10] line = none
  request : RequestLine.ofText {} line = some s.requestLine.derived
  requestDone : s.requestLine.parseStatus = .gotoNextSubparser
  isLine : ∀ l ∈ lines, Line l
  headers : s.headers.derived = lines.foldl (parseOptionValue tags) {}

/-- The bytes that arrived start with a whole request that was accepted: its line and its headers,
which are parsed to their end, and as many bytes of the body as they say.  If no write was empty,
then the bytes in front of the body are the line and the header block with its empty line. -/
def Handled (maxPostDataSize : ℕ) (s : HTTPv1Connection) (stream : List UInt8) : Prop :=
  ∃ head line lines body rest, stream = head ++ body ++ rest ∧ RequestRead tags s line lines ∧
    s.headers.parseStatus = .gotoNextSubparser ∧
    (clean → head = line ++ 13 :: 10 :: block lines) ∧
    body.length = s.contentLength ∧ Accepted maxPostDataSize s

/-- What is true of a connection to which the given bytes have been written. -/
structure AnsweredOnce (maxPostDataSize : ℕ) (s : HTTPv1Connection) (stream : List UInt8) :
    Prop where
  answers : s.log.count .answer ≤ 1
  calls : (s.log.filter (· ≠ .answer)).length ≤ 1
  notBad : AnswerEvent.procHTTPClientContent true ∉ s.log
  handled : AnswerEvent.procHTTPClientContent false ∈ s.log →
    Handled tags clean maxPostDataSize s stream
  ended : AnswerEvent.answer ∈ s.log →
    s.currentParser = none ∧ ∀ w, ((parserClass H tags heap).write s w).1 = s

/-! ## The answers -/

/-- No answer and nothing to refuse so far. -/
structure Quiet (s : HTTPv1Connection) : Prop where
  log : s.log = []
  badAnswer : s.badAnswer = false

/-- The same request line and the same headers have been read. -/
structure SameRequest (s s' : HTTPv1Connection) : Prop where
  requestLine : s'.requestLine = s.requestLine
  headers : s'.headers = s.headers

theorem SameRequest.contentLength {s s' : HTTPv1Connection} (h : SameRequest s s') :
    s'.contentLength = s.contentLength := by
  rw [HTTPv1Connection.contentLength, h.headers, ← HTTPv1Connection.contentLength]

theorem SameRequest.requestRead {s s' : HTTPv1Connection} (h : SameRequest s s')
    {line : List UInt8} {lines : List (List UInt8)} (hread : RequestRead tags s line lines) :
    RequestRead tags s' line lines where
  unbroken := hread.unbroken
  request := by
    rw [h.requestLine]
    exact hread.request
  requestDone := by
    rw [h.requestLine]
    exact hread.requestDone
  isLine := hread.isLine
  headers := by
    rw [h.headers]
    exact hread.headers

/-- The host that a request of version 1.1 must have. -/
def HasHost (s : HTTPv1Connection) : Prop :=
  1 ≤ s.requestLine.derived.httpVersion.minorVersion → s.virtualHost ≠ []

/-- The connection is over: at most one answer, without `procHTTPClientContent`. -/
def Refused (s : HTTPv1Connection) : Prop :=
  s.currentParser = none ∧ (s.log = [] ∨ s.log = [.answer])

/-- The connection is over, with an answer of `procHTTPClientContent`. -/
def Done (s : HTTPv1Connection) : Prop :=
  s.currentParser = none ∧ s.log = [.answer, .procHTTPClientContent false]

theorem answer_bad {s : HTTPv1Connection} (hlog : s.log = []) (hbad : s.badAnswer = true) :
    Refused (s.answer H).1 := by
  unfold answer
  simp only [hbad, if_true, hlog]
  exact ⟨rfl, Or.inr rfl⟩

theorem answer_quiet {s : HTTPv1Connection} (h : s.Quiet) :
    Done (s.answer H).1 ∧ SameRequest s (s.answer H).1 ∧
      (s.answer H).1.virtualHost = s.virtualHost := by
  unfold answer
  simp only [h.badAnswer, h.log, Bool.false_eq_true, if_false]
  exact ⟨⟨rfl, rfl⟩, ⟨rfl, rfl⟩, trivial⟩

/-- Behind the request line: the request is refused, or the headers are next. -/
theorem change_requestLine {s : HTTPv1Connection} (hparser : s.currentParser = some .requestLine)
    (h : s.Quiet) :
    Refused (s.changeToNextParser H).1 ∨
      ((s.changeToNextParser H).1.currentParser = some .headers ∧
        (s.changeToNextParser H).1.Quiet ∧ SameRequest s (s.changeToNextParser H).1 ∧
        (s.changeToNextParser H).1.content = s.content ∧
        s.requestLine.derived.httpVersion.majorVersion = 1) := by
  rw [changeToNextParser, hparser]
  simp only [changeToNextParserFromClientRequestLine]
  unfold prepareServerVersionOnURI
  by_cases hmajor : s.requestLine.derived.httpVersion.majorVersion = 1
  · rw [if_neg (not_not.mpr hmajor)]
    simp only [h.badAnswer, Bool.false_eq_true, if_false]
    split
    · exact Or.inr ⟨rfl, ⟨h.log, rfl⟩, ⟨rfl, rfl⟩, rfl, hmajor⟩
    · exact Or.inl ⟨rfl, Or.inl h.log⟩
  · rw [if_pos hmajor]
    simp only [if_true]
    exact Or.inl (answer_bad H h.log rfl)

/-- What the server takes from the headers, and whether it refuses them. -/
theorem readHeaders_spec {s : HTTPv1Connection} (h : s.Quiet) :
    SameRequest s (s.readHeaders H) ∧ (s.readHeaders H).content = s.content ∧
      (s.readHeaders H).log = [] ∧
      ((s.readHeaders H).badAnswer = true ∨
        (s.readHeaders H).badAnswer = false ∧ HasHost (s.readHeaders H)) := by
  have hhost : SameRequest s s.parseHostOptions ∧ s.parseHostOptions.content = s.content ∧
      s.parseHostOptions.log = [] ∧ s.parseHostOptions.badAnswer = false := by
    unfold parseHostOptions
    simp only
    split
    · exact ⟨⟨rfl, rfl⟩, rfl, h.log, h.badAnswer⟩
    · split <;> exact ⟨⟨rfl, rfl⟩, rfl, h.log, h.badAnswer⟩
  obtain ⟨hsame, hcontent, hlog, hbad⟩ := hhost
  unfold readHeaders prepareServerVersionOnOptions
  simp only
  by_cases hmissing : 1 ≤ s.parseHostOptions.requestLine.derived.httpVersion.minorVersion ∧
      s.parseHostOptions.virtualHost = []
  · rw [if_pos hmissing]
    split <;> exact ⟨⟨hsame.requestLine, hsame.headers⟩, hcontent, hlog, Or.inl rfl⟩
  · rw [if_neg hmissing]
    have hhas : HasHost s.parseHostOptions := fun hminor hempty => hmissing ⟨hminor, hempty⟩
    split <;> exact ⟨⟨hsame.requestLine, hsame.headers⟩, hcontent, hlog, Or.inr ⟨hbad, hhas⟩⟩

/-- What comes after the headers. -/
inductive HeadersRead (s s' : HTTPv1Connection) : Prop
  | refused (h : Refused s')
  | done (h : Done s') (same : SameRequest s s') (host : HasHost s') (hlen : s.contentLength = 0)
  | body (hparser : s'.currentParser = some .content) (quiet : s'.Quiet) (same : SameRequest s s')
      (host : HasHost s') (hpos : 0 < s.contentLength)
      (hset : Content.setContentLenSize (Content.setTransmitionMode s.content .contentLength)
        s.contentLength = (s'.content, true))

theorem change_headers {s : HTTPv1Connection} (hparser : s.currentParser = some .headers)
    (h : s.Quiet) : HeadersRead s (s.changeToNextParser H).1 := by
  rw [changeToNextParser, hparser]
  simp only [changeToNextParserFromClientHeaders]
  obtain ⟨hsame, hcontent, hlog, hbad | ⟨hbad, hhost⟩⟩ := readHeaders_spec H h
  · simp only [hbad, if_true]
    exact .refused (answer_bad H hlog hbad)
  · simp only [hbad, Bool.false_eq_true, if_false]
    have hquiet : (s.readHeaders H).Quiet := ⟨hlog, hbad⟩
    have hlen := hsame.contentLength
    unfold prepareContent
    by_cases hzero : s.contentLength = 0
    · simp only [hlen, hzero, if_true]
      split
      · exact .refused ⟨rfl, Or.inl hlog⟩
      · obtain ⟨hdone, hsame', hvirtual⟩ := answer_quiet H hquiet
        refine .done hdone ⟨hsame'.requestLine.trans hsame.requestLine,
          hsame'.headers.trans hsame.headers⟩ ?_ hzero
        intro hminor
        rw [hvirtual]
        rw [hsame'.requestLine] at hminor
        exact hhost hminor
    · rw [hlen, if_neg hzero, hcontent]
      rcases hset : Content.setContentLenSize
        (Content.setTransmitionMode s.content .contentLength) s.contentLength with ⟨p, fits⟩
      cases fits with
      | false => exact .refused (answer_bad H hlog rfl)
      | true =>
          simp only
          split
          · exact .refused ⟨rfl, Or.inl hlog⟩
          · rw [if_neg]
            · exact .body rfl ⟨hlog, hbad⟩ ⟨hsame.requestLine, hsame.headers⟩ hhost
                (Nat.pos_of_ne_zero hzero) hset
            · exact fun hz => hzero (hlen.symm.trans hz)

/-- Behind the body. -/
theorem change_content {s : HTTPv1Connection} (hparser : s.currentParser = some .content)
    (h : s.Quiet) : Done (s.changeToNextParser H).1 ∧ SameRequest s (s.changeToNextParser H).1 ∧
      (s.changeToNextParser H).1.virtualHost = s.virtualHost := by
  rw [changeToNextParser, hparser]
  have hquiet : ({ s with currentParser := none } : HTTPv1Connection).Quiet := ⟨h.log, h.badAnswer⟩
  obtain ⟨hdone, hsame, hvirtual⟩ := answer_quiet H hquiet
  exact ⟨hdone, ⟨hsame.requestLine, hsame.headers⟩, hvirtual⟩

/-! ## The stages -/

/-- Waiting for the request line, with a part of it in the buffer. -/
structure AtRequestLine (maxPostDataSize maxHttpChunkSize : ℕ) (s : HTTPv1Connection)
    (got : List UInt8) : Prop where
  currentParser : s.currentParser = some .requestLine
  quiet : s.Quiet
  holds : SubParser.Holds RequestLine.settings s.requestLine
  unparsed : s.requestLine.unparsedBuffer.bytes = got
  unbroken : first [13, 10] got = none
  derived : s.requestLine.derived = {}
  headers : s.headers = SubParser.start MimeSubHeader.settings {}
  content : s.content = Content.fresh maxPostDataSize maxHttpChunkSize

/-- Reading the headers, with a part of a line in the buffer. -/
structure AtHeaders (maxPostDataSize maxHttpChunkSize : ℕ) (s : HTTPv1Connection)
    (got head line : List UInt8) (lines : List (List UInt8)) : Prop where
  currentParser : s.currentParser = some .headers
  quiet : s.Quiet
  read : RequestRead tags s line lines
  version : s.requestLine.derived.httpVersion.majorVersion = 1
  holds : SubParser.Holds MimeSubHeader.settings (s.headers.withEnded false)
  unbroken : first [13, 10] s.headers.unparsedBuffer.bytes = none
  bytes : got = head ++ s.headers.unparsedBuffer.bytes
  whole : clean → head = line ++ 13 :: 10 :: lines.flatMap (· ++ [13, 10]) ∧
    s.headers.streamEnded = false
  content : s.content = Content.fresh maxPostDataSize maxHttpChunkSize

/-- Receiving the body. -/
structure AtContent (maxPostDataSize : ℕ) (s : HTTPv1Connection) (got head line : List UInt8)
    (lines : List (List UInt8)) (body : List UInt8) : Prop where
  currentParser : s.currentParser = some .content
  quiet : s.Quiet
  read : RequestRead tags s line lines
  headersDone : s.headers.parseStatus = .gotoNextSubparser
  accepted : Accepted maxPostDataSize s
  waiting : Content.Waiting (s.content.withEnded false)
  length : body.length + Content.bytesLeft s.content = s.contentLength
  bytes : got = head ++ body
  whole : clean → head = line ++ 13 :: 10 :: block lines

/-- A connection that is still parsing. -/
inductive Parsing (maxPostDataSize maxHttpChunkSize : ℕ) (s : HTTPv1Connection)
    (got : List UInt8) : Prop
  | requestLine (h : AtRequestLine maxPostDataSize maxHttpChunkSize s got)
  | headers (head line : List UInt8) (lines : List (List UInt8))
      (h : AtHeaders tags clean maxPostDataSize maxHttpChunkSize s got head line lines)
  | content (head line : List UInt8) (lines : List (List UInt8)) (body : List UInt8)
      (h : AtContent tags clean maxPostDataSize s got head line lines body)

/-- A connection that is over, or at least without an answer so far. -/
inductive Settled (maxPostDataSize : ℕ) (s : HTTPv1Connection) (stream : List UInt8) : Prop
  | silent (hlog : s.log = [])
  | refused (h : Refused s)
  | done (h : Done s) (handled : Handled tags clean maxPostDataSize s stream)

/-- A connection between two writes. -/
inductive Between (maxPostDataSize maxHttpChunkSize : ℕ) (s : HTTPv1Connection)
    (got : List UInt8) : Prop
  | parsing (h : Parsing tags clean maxPostDataSize maxHttpChunkSize s got)
  | closed (hparser : s.currentParser = none) (h : Settled tags clean maxPostDataSize s got)

variable {tags} {clean} {maxPostDataSize maxHttpChunkSize : ℕ} {s : HTTPv1Connection}
  {got : List UInt8}

theorem Parsing.quiet (h : Parsing tags clean maxPostDataSize maxHttpChunkSize s got) :
    s.Quiet := by
  cases h with
  | requestLine h => exact h.quiet
  | headers head line lines h => exact h.quiet
  | content head line lines body h => exact h.quiet

theorem Parsing.hasParser (h : Parsing tags clean maxPostDataSize maxHttpChunkSize s got) :
    (parserClass H tags heap).hasParser s = true := by
  show s.currentParser.isSome = true
  cases h with
  | requestLine h => rw [h.currentParser]; rfl
  | headers head line lines h => rw [h.currentParser]; rfl
  | content head line lines body h => rw [h.currentParser]; rfl

/-- More bytes do not undo what is said of a connection. -/
theorem Settled.append (h : Settled tags clean maxPostDataSize s got) (more : List UInt8) :
    Settled tags clean maxPostDataSize s (got ++ more) := by
  cases h with
  | silent hlog => exact .silent hlog
  | refused h => exact .refused h
  | done h handled =>
      obtain ⟨head, line, lines, body, rest, hbytes, hhandled⟩ := handled
      refine .done h ⟨head, line, lines, body, rest ++ more, ?_, hhandled⟩
      simp only [hbytes, List.append_assoc]

theorem Between.settled (h : Between tags clean maxPostDataSize maxHttpChunkSize s got) :
    Settled tags clean maxPostDataSize s got := by
  cases h with
  | parsing h => exact .silent h.quiet.log
  | closed _ h => exact h

/-- What is said for the case that no write was empty can be left out. -/
theorem Settled.mono {clean' : Prop} (hclean : clean' → clean)
    (h : Settled tags clean maxPostDataSize s got) : Settled tags clean' maxPostDataSize s got := by
  cases h with
  | silent hlog => exact .silent hlog
  | refused h => exact .refused h
  | done h handled =>
      obtain ⟨head, line, lines, body, rest, hbytes, hread, hdone, hwhole, hlen, haccepted⟩ :=
        handled
      exact .done h ⟨head, line, lines, body, rest, hbytes, hread, hdone,
        fun hc => hwhole (hclean hc), hlen, haccepted⟩

theorem Between.mono {clean' : Prop} (hclean : clean' → clean)
    (h : Between tags clean maxPostDataSize maxHttpChunkSize s got) :
    Between tags clean' maxPostDataSize maxHttpChunkSize s got := by
  cases h with
  | parsing h =>
      cases h with
      | requestLine h => exact .parsing (.requestLine h)
      | headers head line lines h =>
          exact .parsing
            (.headers head line lines { h with whole := fun hc => h.whole (hclean hc) })
      | content head line lines body h =>
          exact .parsing
            (.content head line lines body { h with whole := fun hc => h.whole (hclean hc) })
  | closed hparser h => exact .closed hparser (h.mono hclean)

variable (tags clean) in
theorem between_start (maxPostDataSize maxHttpChunkSize : ℕ) :
    Between tags clean maxPostDataSize maxHttpChunkSize
      (start maxPostDataSize maxHttpChunkSize) [] :=
  .parsing (.requestLine
    ⟨rfl, ⟨rfl, rfl⟩, SubParser.holds_start _ _, rfl, first_nil (by decide), rfl, rfl, rfl⟩)

/-- What is said of a connection follows from this. -/
theorem Settled.answeredOnce (h : Settled tags clean maxPostDataSize s got) :
    AnsweredOnce H tags heap clean maxPostDataSize s got := by
  have hended : s.currentParser = none → ∀ w, ((parserClass H tags heap).write s w).1 = s := by
    intro hparser w
    refine ParserClass.parseData_of_not_hasParser ?_ _ w
    show s.currentParser.isSome = false
    rw [hparser]
    rfl
  cases h with
  | silent hlog =>
      refine ⟨?_, ?_, ?_, ?_, ?_⟩
      all_goals simp [hlog]
  | refused h =>
      obtain ⟨hparser, hlog | hlog⟩ := h
      · refine ⟨?_, ?_, ?_, ?_, ?_⟩
        all_goals simp [hlog]
      · refine ⟨?_, ?_, ?_, ?_, fun _ => ⟨hparser, hended hparser⟩⟩
        all_goals simp [hlog]
  | done h handled =>
      obtain ⟨hparser, hlog⟩ := h
      refine ⟨?_, ?_, ?_, fun _ => handled, fun _ => ⟨hparser, hended hparser⟩⟩
      all_goals simp [hlog]

/-! ## Rounds of the parser -/

variable (tags clean) in
/-- What a round of the parser comes to. -/
inductive Goes (maxPostDataSize maxHttpChunkSize : ℕ) (got buf : List UInt8)
    (s : HTTPv1Connection) : Round → Prop
  | left (n : ℕ) (hn : n < buf.length)
      (h : Parsing tags clean maxPostDataSize maxHttpChunkSize s (got ++ buf.take n)) :
      Goes maxPostDataSize maxHttpChunkSize got buf s (.left n)
  | answer (n : ℕ) (h : Between tags clean maxPostDataSize maxHttpChunkSize s (got ++ buf)) :
      Goes maxPostDataSize maxHttpChunkSize got buf s (.answer n)
  | failed (h : Settled tags clean maxPostDataSize s (got ++ buf)) :
      Goes maxPostDataSize maxHttpChunkSize got buf s .failed

variable {buf : List UInt8} {n : ℕ}

/-- The parser goes on with the same sub-parser. -/
theorem goes_more (hn : n ≤ buf.length)
    (h : Parsing tags clean maxPostDataSize maxHttpChunkSize s (got ++ buf.take n)) :
    Goes tags clean maxPostDataSize maxHttpChunkSize got buf s
      (if n = buf.length then .answer n else .left n) := by
  split
  · rename_i hall
    refine .answer n (.parsing ?_)
    rwa [hall, List.take_length] at h
  · exact .left n (by omega) h

/-- The parser goes on with the next sub-parser, or it is over. -/
theorem goes_next (hn : n ≤ buf.length)
    (h : Between tags clean maxPostDataSize maxHttpChunkSize s (got ++ buf.take n))
      (changed : Bool) :
    Goes tags clean maxPostDataSize maxHttpChunkSize got buf s
      (if changed = false then .failed
        else if (parserClass H tags heap).hasParser s = false ∨ n = buf.length then .answer n
        else .left n) := by
  have hall : got ++ buf.take n ++ buf.drop n = got ++ buf := by
    rw [List.append_assoc, List.take_append_drop]
  cases changed with
  | false =>
      refine .failed ?_
      rw [← hall]
      exact h.settled.append _
  | true =>
      rw [if_neg (by decide)]
      cases h with
      | parsing h =>
          rw [h.hasParser H heap]
          simp only [Bool.true_eq_false, false_or]
          exact goes_more hn h
      | closed hparser h =>
          have hnot : (parserClass H tags heap).hasParser s = false := by
            show s.currentParser.isSome = false
            rw [hparser]
            rfl
          rw [if_pos (Or.inl hnot)]
          refine .answer n (.closed hparser ?_)
          rw [← hall]
          exact h.append _

/-- A count that was taken is the answer of the write. -/
theorem eq_bytes_of_toOption {x : Written} (h : x.toOption = some n) : x = .bytes n := by
  cases x with
  | bytes k =>
      rw [show k = n from Option.some.inj h]
  | nullopt => cases h
  | exception => cases h

theorem keepsSettings_requestLine : SubParser.KeepsSettings RequestLine.parse := by
  intro r st shown
  unfold RequestLine.parse
  split <;> exact ⟨rfl, rfl, fun _ => rfl, fun _ => rfl⟩

/-- The request line is complete: it is refused, or the headers are next. -/
theorem between_requestLine (h : AtRequestLine maxPostDataSize maxHttpChunkSize s got)
    {p' : SubParser RequestLine} {line head : List UInt8} (hline : first [13, 10] line = none)
    (hrequest : RequestLine.ofText {} line = some p'.derived)
    (hdone : p'.parseStatus = .gotoNextSubparser) (hwhole : clean → head = line ++ [13, 10]) :
    Between tags clean maxPostDataSize maxHttpChunkSize
      (changeToNextParser H { s with requestLine := p' }).1 head := by
  have hquiet : ({ s with requestLine := p' } : HTTPv1Connection).Quiet :=
    ⟨h.quiet.log, h.quiet.badAnswer⟩
  rcases change_requestLine H (s := { s with requestLine := p' }) h.currentParser hquiet with
    hrefused |
    ⟨hparser, hquiet', hsame, hcontent, hversion⟩
  · exact .closed hrefused.1 (.refused hrefused)
  · have hheaders := hsame.headers.trans h.headers
    refine .parsing (.headers head line [] ⟨hparser, hquiet', ?_, ?_, ?_, ?_, ?_, ?_, ?_⟩)
    · refine ⟨hline, ?_, ?_, by simp, ?_⟩
      · rw [hsame.requestLine]
        exact hrequest
      · rw [hsame.requestLine]
        exact hdone
      · rw [hheaders]
        rfl
    · rw [hsame.requestLine]
      exact hversion
    · rw [hheaders]
      exact SubParser.holds_start _ _
    · rw [hheaders]
      exact first_nil (by decide)
    · rw [hheaders]
      exact (List.append_nil head).symm
    · intro hc
      rw [hheaders]
      exact ⟨hwhole hc, rfl⟩
    · rw [hcontent]
      exact h.content

/-- A round in which the request line is shown a piece of the stream. -/
theorem goes_requestLine_shown (h : AtRequestLine maxPostDataSize maxHttpChunkSize s got)
    {p' : SubParser RequestLine} {line : List UInt8} (hn : n ≤ buf.length)
    (hwrite : (parserClass H tags heap).writeIntoParser s buf =
      ({ s with requestLine := p' }, .bytes n))
    (hline : first [13, 10] line = none)
    (hshown : SubParser.Shown RequestLine.parse (s.requestLine.setParseStatus .getMoreData) p' line)
    (hwhole : clean → got ++ buf.take n = line ++ [13, 10]) :
    Goes tags clean maxPostDataSize maxHttpChunkSize got buf
      ((parserClass H tags heap).parseRound s buf).1
      ((parserClass H tags heap).parseRound s buf).2 := by
  have hparsing : Parsing tags clean maxPostDataSize maxHttpChunkSize s got := .requestLine h
  have hparser := hparsing.hasParser H heap
  have hstat : (parserClass H tags heap).parseStatus { s with requestLine := p' } =
      p'.parseStatus := by
    show parseStatus { s with requestLine := p' } = _
    rw [parseStatus, h.currentParser]
  obtain ⟨-, st, hderived, hstatus⟩ := hshown
  rw [SubParser.derived_setParseStatus, h.derived] at hderived hstatus
  simp only [RequestLine.parse] at hderived hstatus
  cases hrequest : RequestLine.ofText {} line with
  | none =>
      rw [hrequest] at hstatus
      rw [ParserClass.parseRound_error hparser hwrite (hstat.trans hstatus)]
      exact .failed (.silent h.quiet.log)
  | some r =>
      rw [hrequest] at hderived hstatus
      rw [ParserClass.parseRound_next hparser hwrite (hstat.trans hstatus) rfl]
      exact goes_next H heap hn (between_requestLine H h hline
        (hrequest.trans (congrArg some hderived.symm)) hstatus hwhole) _

theorem goes_requestLine (h : AtRequestLine maxPostDataSize maxHttpChunkSize s got)
    (hbuf : buf ≠ []) :
    Goes tags clean maxPostDataSize maxHttpChunkSize got buf
      ((parserClass H tags heap).parseRound s buf).1
      ((parserClass H tags heap).parseRound s buf).2 := by
  have hparsing : Parsing tags clean maxPostDataSize maxHttpChunkSize s got := .requestLine h
  have hparser := hparsing.hasParser H heap
  have hwritten := (h.holds.setParseStatus .getMoreData).lineWritten RequestLine.parse heap
    keepsSettings_requestLine rfl rfl (by decide) hbuf (by
      rw [SubParser.unparsedBuffer_setParseStatus, h.unparsed]
      exact h.unbroken)
  rcases hinto : (s.requestLine.setParseStatus .getMoreData).writeIntoParser RequestLine.parse heap
    buf with ⟨p', x⟩
  have hwrite : (parserClass H tags heap).writeIntoParser s buf =
      ({ s with requestLine := p' }, x) := by
    show writeIntoParser H tags heap s buf = _
    simp only [writeIntoParser, h.currentParser, hinto]
  simp only [SubParser.write, hinto] at hwritten
  cases hx : x.toOption with
  | none =>
      rw [ParserClass.parseRound_refused hparser hwrite hx]
      exact .failed (.silent h.quiet.log)
  | some n =>
      obtain rfl := eq_bytes_of_toOption hx
      rw [hx] at hwritten
      cases hwritten with
      | line q hfirst hfits holds hbytes hshown =>
          rw [SubParser.unparsedBuffer_setParseStatus, h.unparsed] at hfirst hshown hwrite
          obtain ⟨htaken, hline, hle⟩ := SubParser.taken_of_line h.unbroken hfirst
          exact goes_requestLine_shown H heap h hle hwrite hline hshown fun _ => htaken
      | kept hpos hnone holds hbytes hderived hstatus =>
          rw [SubParser.unparsedBuffer_setParseStatus, h.unparsed] at hnone hbytes
          have hround := ParserClass.parseRound_more hparser hwrite (by
            show parseStatus { s with requestLine := p' } = .getMoreData
            rw [parseStatus, h.currentParser]
            exact hstatus)
          rw [hround]
          refine goes_more (List.length_take_le' _ _) (.requestLine ?_)
          rw [SubParser.take_length_take]
          exact ⟨h.currentParser, ⟨h.quiet.log, h.quiet.badAnswer⟩, holds, hbytes, hnone,
            hderived.trans h.derived, h.headers, h.content⟩

/-- The end of the stream in the request line. -/
theorem goes_requestLine_ended (h : AtRequestLine maxPostDataSize maxHttpChunkSize s got) :
    Goes tags False maxPostDataSize maxHttpChunkSize got []
      ((parserClass H tags heap).parseRound s []).1
      ((parserClass H tags heap).parseRound s []).2 := by
  have holds : SubParser.Holds RequestLine.settings
      ((s.requestLine.setParseStatus .getMoreData).withEnded false) := by
    rw [SubParser.withEnded_of_streamEnded (h.holds.setParseStatus .getMoreData).streamEnded]
    exact h.holds.setParseStatus .getMoreData
  obtain ⟨p', hinto, hshown⟩ := SubParser.pieceShown_ended RequestLine.parse heap holds
    keepsSettings_requestLine rfl rfl (by
      rw [SubParser.unparsedBuffer_setParseStatus, h.unparsed]
      exact h.unbroken)
  have hwrite : (parserClass H tags heap).writeIntoParser s [] =
      ({ s with requestLine := p' }, .bytes 0) := by
    show writeIntoParser H tags heap s [] = _
    simp only [writeIntoParser, h.currentParser, hinto]
  exact goes_requestLine_shown H heap h le_rfl hwrite hshown.unbroken hshown.shown False.elim

/-- A body that the server accepts is one to wait for. -/
theorem waiting_of_set {len : ℕ} {p₀ p : SubParser Content} (h64 : maxPostDataSize < 2 ^ 64)
    (hfresh : p₀ = Content.fresh maxPostDataSize maxHttpChunkSize) (hpos : 0 < len)
    (hset : Content.setContentLenSize (Content.setTransmitionMode p₀ .contentLength) len =
      (p, true)) :
    len ≤ maxPostDataSize ∧ Content.Waiting p ∧ Content.bytesLeft p = len := by
  rw [hfresh] at hset
  have hle : len ≤ maxPostDataSize := by
    by_contra hover
    have hlimit : (Content.setTransmitionMode (Content.fresh maxPostDataSize maxHttpChunkSize)
        .contentLength).derived.securityMaxPostDataSize < len := not_le.mp hover
    rw [Content.setContentLenSize, if_pos hlimit] at hset
    exact absurd (congrArg Prod.snd hset) Bool.false_ne_true
  have hp : Content.withContentLength maxPostDataSize maxHttpChunkSize len = p :=
    congrArg Prod.fst hset
  obtain ⟨hwaiting, hleft, -⟩ := Content.waiting_withContentLength maxHttpChunkSize hpos hle h64
  rw [hp] at hwaiting hleft
  exact ⟨hle, hwaiting, hleft⟩

variable {head line : List UInt8} {lines : List (List UInt8)} {body : List UInt8}

/-- The headers are complete: the request is refused, answered, or the body is next. -/
theorem between_headers (h64 : maxPostDataSize < 2 ^ 64) {clean' : Prop} {head' : List UInt8}
    (h : AtHeaders tags clean maxPostDataSize maxHttpChunkSize s got head line lines)
    {p' : SubParser MimeSubHeader} (hderived : p'.derived = s.headers.derived)
    (hdone : p'.parseStatus = .gotoNextSubparser)
    (hwhole : clean' → head' = line ++ 13 :: 10 :: block lines) :
    Between tags clean' maxPostDataSize maxHttpChunkSize
      (changeToNextParser H { s with headers := p' }).1 head' := by
  have hread : RequestRead tags { s with headers := p' } line lines :=
    ⟨h.read.unbroken, h.read.request, h.read.requestDone, h.read.isLine,
      hderived.trans h.read.headers⟩
  have hquiet : ({ s with headers := p' } : HTTPv1Connection).Quiet :=
    ⟨h.quiet.log, h.quiet.badAnswer⟩
  have hchanged := change_headers H (s := { s with headers := p' }) h.currentParser hquiet
  cases hchanged with
  | refused hrefused => exact .closed hrefused.1 (.refused hrefused)
  | done hdone' hsame hhost hlen =>
      have hversion := h.version
      have hzero := hsame.contentLength.trans hlen
      refine .closed hdone'.1 (.done hdone' ⟨head', line, lines, [], [], ?_,
        hsame.requestRead tags hread, ?_, hwhole, hzero.symm, ?_, hhost, ?_⟩)
      · rw [List.append_nil, List.append_nil]
      · rw [hsame.headers]
        exact hdone
      · rw [hsame.requestLine]
        exact hversion
      · rw [hzero]
        exact Nat.zero_le _
  | body hparser hquiet' hsame hhost hpos hset =>
      have hversion := h.version
      obtain ⟨hle, hwaiting, hleft⟩ := waiting_of_set h64 h.content hpos hset
      refine .parsing (.content head' line lines [] ⟨hparser, hquiet', hsame.requestRead tags hread,
        ?_, ⟨?_, hhost, ?_⟩, ?_, ?_, ?_, hwhole⟩)
      · rw [hsame.headers]
        exact hdone
      · rw [hsame.requestLine]
        exact hversion
      · rw [hsame.contentLength]
        exact hle
      · rw [SubParser.withEnded_of_streamEnded hwaiting.receiving.streamEnded]
        exact hwaiting
      · rw [hsame.contentLength, hleft, List.length_nil, Nat.zero_add]
      · rw [List.append_nil]

/-- A further line of the headers. -/
theorem AtHeaders.nextLine {clean' : Prop}
    (h : AtHeaders tags clean maxPostDataSize maxHttpChunkSize s got head line lines)
    {p' : SubParser MimeSubHeader} {l w lineBreak : List UInt8} (hl : Line l)
    (hderived : p'.derived = s.headers.derived.parseOptionValue tags l)
    (holds : SubParser.Holds MimeSubHeader.settings (p'.withEnded false))
    (hbytes : p'.unparsedBuffer.bytes = [])
    (htaken : s.headers.unparsedBuffer.bytes ++ w = l ++ lineBreak)
    (hclean : clean' → clean ∧ lineBreak = [13, 10] ∧ p'.streamEnded = s.headers.streamEnded) :
    AtHeaders tags clean' maxPostDataSize maxHttpChunkSize { s with headers := p' } (got ++ w)
      (head ++ (l ++ lineBreak)) line (lines ++ [l]) where
  currentParser := h.currentParser
  quiet := ⟨h.quiet.log, h.quiet.badAnswer⟩
  read := by
    refine ⟨h.read.unbroken, h.read.request, h.read.requestDone, ?_, ?_⟩
    · intro v hv
      rcases List.mem_append.mp hv with hv | hv
      · exact h.read.isLine v hv
      · rw [List.mem_singleton.mp hv]
        exact hl
    · rw [List.foldl_append, ← h.read.headers]
      exact hderived
  version := h.version
  holds := holds
  unbroken := by
    rw [hbytes]
    exact first_nil (by decide)
  bytes := by
    rw [hbytes, h.bytes, List.append_nil, List.append_assoc, htaken]
  whole := by
    intro hc
    obtain ⟨hc, rfl, hended⟩ := hclean hc
    obtain ⟨hhead, hopen⟩ := h.whole hc
    refine ⟨?_, hended.trans hopen⟩
    rw [hhead, List.flatMap_append, List.flatMap_cons, List.flatMap_nil, List.append_nil]
    simp only [List.append_assoc, List.cons_append]
  content := h.content

/-- Data without a line break. -/
theorem AtHeaders.kept
    (h : AtHeaders tags clean maxPostDataSize maxHttpChunkSize s got head line lines)
    {p' : SubParser MimeSubHeader} (hderived : p'.derived = s.headers.derived)
    (holds : SubParser.Holds MimeSubHeader.settings (p'.withEnded false)) {w : List UInt8}
    (hended : p'.streamEnded = s.headers.streamEnded)
    (hbytes : p'.unparsedBuffer.bytes = s.headers.unparsedBuffer.bytes ++ w)
    (hnone : first [13, 10] (s.headers.unparsedBuffer.bytes ++ w) = none) :
    AtHeaders tags clean maxPostDataSize maxHttpChunkSize { s with headers := p' } (got ++ w) head
      line lines where
  currentParser := h.currentParser
  quiet := ⟨h.quiet.log, h.quiet.badAnswer⟩
  read := ⟨h.read.unbroken, h.read.request, h.read.requestDone, h.read.isLine,
    hderived.trans h.read.headers⟩
  version := h.version
  holds := holds
  unbroken := by
    rw [hbytes]
    exact hnone
  bytes := by rw [hbytes, h.bytes, List.append_assoc]
  whole hc := ⟨(h.whole hc).1, hended.trans (h.whole hc).2⟩
  content := h.content

/-- A round in which the headers are shown a piece of the stream. -/
theorem goes_headers_shown (h64 : maxPostDataSize < 2 ^ 64) {clean' : Prop}
    (h : AtHeaders tags clean maxPostDataSize maxHttpChunkSize s got head line lines)
    {p' : SubParser MimeSubHeader} {l lineBreak : List UInt8} (hn : n ≤ buf.length)
    (hwrite : (parserClass H tags heap).writeIntoParser s buf =
      ({ s with headers := p' }, .bytes n))
    (hshown : SubParser.PieceShown (MimeSubHeader.parse tags) MimeSubHeader.settings
      (s.headers.setParseStatus .getMoreData) p' l)
    (htaken : s.headers.unparsedBuffer.bytes ++ buf.take n = l ++ lineBreak)
    (hclean : clean' → clean ∧ lineBreak = [13, 10] ∧ p'.streamEnded = s.headers.streamEnded) :
    Goes tags clean' maxPostDataSize maxHttpChunkSize got buf
      ((parserClass H tags heap).parseRound s buf).1
      ((parserClass H tags heap).parseRound s buf).2 := by
  have hparser := (Parsing.headers head line lines h).hasParser H heap
  have hstat : (parserClass H tags heap).parseStatus { s with headers := p' } = p'.parseStatus := by
    show parseStatus { s with headers := p' } = _
    rw [parseStatus, h.currentParser]
  have hbytes : got ++ buf.take n = head ++ (l ++ lineBreak) := by
    rw [h.bytes, List.append_assoc, htaken]
  obtain ⟨hunbroken, holds, hempty, hshown⟩ := hshown
  by_cases hl : l = []
  · -- the empty line
    subst hl
    obtain ⟨hderived, hfinished⟩ := derived_of_end hshown
    have hstatus : p'.parseStatus = .gotoNextSubparser := beq_iff_eq.mp hfinished
    rw [ParserClass.parseRound_next hparser hwrite (hstat.trans hstatus) rfl]
    refine goes_next H heap hn ?_ _
    rw [hbytes]
    refine between_headers H h64 h hderived hstatus fun hc => ?_
    obtain ⟨hc, rfl, -⟩ := hclean hc
    rw [(h.whole hc).1, block]
    simp only [List.nil_append, List.append_assoc, List.cons_append]
  · -- a line of the headers
    obtain ⟨-, st, hderived, hstatus⟩ := hshown
    rw [parse_line tags hl] at hderived hstatus
    rw [ParserClass.parseRound_more hparser hwrite (hstat.trans hstatus)]
    exact goes_more hn
      (.headers _ line _ (h.nextLine ⟨hl, hunbroken⟩ hderived holds hempty htaken hclean))

/-- What is known of the buffer of the headers also holds when their status has been set. -/
theorem AtHeaders.holds_setParseStatus
    (h : AtHeaders tags clean maxPostDataSize maxHttpChunkSize s got head line lines) :
    SubParser.Holds MimeSubHeader.settings
      ((s.headers.setParseStatus .getMoreData).withEnded false) :=
  h.holds.setParseStatus .getMoreData

theorem goes_headers (h64 : maxPostDataSize < 2 ^ 64)
    (h : AtHeaders tags clean maxPostDataSize maxHttpChunkSize s got head line lines)
    (hbuf : buf ≠ []) :
    Goes tags clean maxPostDataSize maxHttpChunkSize got buf
      ((parserClass H tags heap).parseRound s buf).1
      ((parserClass H tags heap).parseRound s buf).2 := by
  have hparser := (Parsing.headers head line lines h).hasParser H heap
  have hwritten := SubParser.pieceTaken (MimeSubHeader.parse tags) heap h.holds_setParseStatus
    (keepsSettings_parse tags) rfl rfl (by decide) hbuf h.unbroken
  rcases hinto : (s.headers.setParseStatus .getMoreData).writeIntoParser (MimeSubHeader.parse tags)
    heap buf with ⟨p', x⟩
  have hwrite : (parserClass H tags heap).writeIntoParser s buf =
      ({ s with headers := p' }, x) := by
    show writeIntoParser H tags heap s buf = _
    simp only [writeIntoParser, h.currentParser, hinto]
  simp only [SubParser.write, hinto] at hwritten
  cases hx : x.toOption with
  | none =>
      rw [ParserClass.parseRound_refused hparser hwrite hx]
      exact .failed (.silent h.quiet.log)
  | some n =>
      obtain rfl := eq_bytes_of_toOption hx
      rw [hx] at hwritten
      cases hwritten with
      | line l n hn hshown hended htaken =>
          exact goes_headers_shown H heap h64 h hn hwrite hshown htaken
            fun hc => ⟨hc, rfl, hended⟩
      | cut l n hn hshown hended hne htaken =>
          refine goes_headers_shown H heap h64 h hn hwrite hshown
            (htaken.trans (List.append_nil l).symm) fun hc => ?_
          exact absurd hended (ne_true_of_eq_false (h.whole hc).2)
      | kept n hn hended hnone holds hbytes hderived hstatus =>
          rw [ParserClass.parseRound_more hparser hwrite (by
            show parseStatus { s with headers := p' } = .getMoreData
            rw [parseStatus, h.currentParser]
            exact hstatus)]
          exact goes_more hn (.headers head line lines (h.kept hderived holds hended hbytes hnone))

/-- The end of the stream in the headers. -/
theorem goes_headers_ended (h64 : maxPostDataSize < 2 ^ 64)
    (h : AtHeaders tags clean maxPostDataSize maxHttpChunkSize s got head line lines) :
    Goes tags False maxPostDataSize maxHttpChunkSize got []
      ((parserClass H tags heap).parseRound s []).1
      ((parserClass H tags heap).parseRound s []).2 := by
  obtain ⟨p', hinto, hshown⟩ := SubParser.pieceShown_ended (MimeSubHeader.parse tags) heap
    h.holds_setParseStatus (keepsSettings_parse tags) rfl rfl h.unbroken
  have hwrite : (parserClass H tags heap).writeIntoParser s [] =
      ({ s with headers := p' }, .bytes 0) := by
    show writeIntoParser H tags heap s [] = _
    simp only [writeIntoParser, h.currentParser, hinto]
  exact goes_headers_shown H heap h64 h le_rfl hwrite hshown rfl False.elim

/-- The body is complete: the request is answered. -/
theorem between_content (h : AtContent tags clean maxPostDataSize s got head line lines body)
    {p' : SubParser Content} {w : List UInt8} (hw : w.length = Content.bytesLeft s.content) :
    Between tags clean maxPostDataSize maxHttpChunkSize
      (changeToNextParser H { s with content := p' }).1 (got ++ w) := by
  have hread : RequestRead tags { s with content := p' } line lines :=
    ⟨h.read.unbroken, h.read.request, h.read.requestDone, h.read.isLine, h.read.headers⟩
  have hquiet : ({ s with content := p' } : HTTPv1Connection).Quiet :=
    ⟨h.quiet.log, h.quiet.badAnswer⟩
  obtain ⟨hdone, hsame, hvirtual⟩ :=
    change_content H (s := { s with content := p' }) h.currentParser hquiet
  obtain ⟨hversion, hhost, hlength⟩ := h.accepted
  refine .closed hdone.1 (.done hdone ⟨head, line, lines, body ++ w, [], ?_,
    hsame.requestRead tags hread, ?_, h.whole, ?_, ?_, ?_, ?_⟩)
  · rw [h.bytes]
    simp only [List.append_assoc, List.append_nil]
  · rw [hsame.headers]
    exact h.headersDone
  · rw [hsame.contentLength, List.length_append, hw, h.length]
    rfl
  · rw [hsame.requestLine]
    exact hversion
  · rw [hsame.requestLine, hvirtual]
    exact hhost
  · rw [hsame.contentLength]
    exact hlength

/-- A part of the body. -/
theorem AtContent.more {clean' : Prop}
    (h : AtContent tags clean maxPostDataSize s got head line lines body)
    {p' : SubParser Content} {w : List UInt8} (hclean : clean' → clean)
    (hwaiting : Content.Waiting (p'.withEnded false))
    (hleft : w.length + Content.bytesLeft p' = Content.bytesLeft s.content) :
    AtContent tags clean' maxPostDataSize { s with content := p' } (got ++ w) head line lines
      (body ++ w) where
  currentParser := h.currentParser
  quiet := ⟨h.quiet.log, h.quiet.badAnswer⟩
  read := ⟨h.read.unbroken, h.read.request, h.read.requestDone, h.read.isLine, h.read.headers⟩
  headersDone := h.headersDone
  accepted := ⟨h.accepted.version, h.accepted.host, h.accepted.length⟩
  waiting := hwaiting
  length := by
    rw [List.length_append, Nat.add_assoc, hleft]
    exact h.length
  bytes := by rw [h.bytes, List.append_assoc]
  whole hc := h.whole (hclean hc)

theorem goes_content (h : AtContent tags clean maxPostDataSize s got head line lines body)
    (hbuf : buf ≠ []) :
    Goes tags clean maxPostDataSize maxHttpChunkSize got buf
      ((parserClass H tags heap).parseRound s buf).1
      ((parserClass H tags heap).parseRound s buf).2 := by
  have hparsing : Parsing tags clean maxPostDataSize maxHttpChunkSize s got :=
    .content head line lines body h
  have hparser := hparsing.hasParser H heap
  by_cases hthrows : H.outStreamThrows s buf = true
  · have hwrite : (parserClass H tags heap).writeIntoParser s buf = (s, .exception) := by
      show writeIntoParser H tags heap s buf = _
      simp only [writeIntoParser, h.currentParser, hthrows, if_true]
    rw [ParserClass.parseRound_refused hparser hwrite rfl]
    exact .failed (.silent h.quiet.log)
  rcases hinto : Content.writeIntoParser heap (s.content.setParseStatus .getMoreData) buf with
    ⟨p', x⟩
  have hwrite : (parserClass H tags heap).writeIntoParser s buf =
      ({ s with content := p' }, x) := by
    show writeIntoParser H tags heap s buf = _
    simp only [writeIntoParser, h.currentParser, hthrows, hinto]
    rfl
  have hstat : (parserClass H tags heap).parseStatus { s with content := p' } = p'.parseStatus := by
    show parseStatus { s with content := p' } = _
    rw [parseStatus, h.currentParser]
  have hoffer : Content.offer heap (s.content.withEnded false) buf =
      (p'.withEnded false, if p'.parseStatus = .error then none else x.toOption) := by
    have hmode : (s.content.setParseStatus .getMoreData).parseMode = .direct :=
      h.waiting.receiving.parseMode
    have hended := Content.writeIntoParser_withEnded heap hmode hbuf false
    rw [hinto] at hended
    rw [Content.offer]
    exact congrArg (fun r : SubParser Content × Written =>
      (r.1, if r.1.parseStatus = .error then none else r.2.toOption)) hended
  cases hx : x.toOption with
  | none =>
      rw [ParserClass.parseRound_refused hparser hwrite hx]
      exact .failed (.silent h.quiet.log)
  | some n =>
      obtain rfl := eq_bytes_of_toOption hx
      by_cases herror : p'.parseStatus = .error
      · rw [ParserClass.parseRound_error hparser hwrite (hstat.trans herror)]
        exact .failed (.silent h.quiet.log)
      rw [if_neg herror, hx] at hoffer
      rcases Content.offer_cases heap h.waiting hbuf with ⟨q, hq, -⟩ | ⟨q, hq, hfinished, hmore, -⟩
      · rw [hq] at hoffer
        cases hoffer
      · obtain ⟨rfl, hn⟩ := Prod.mk.inj (hq.symm.trans hoffer)
        obtain rfl := Option.some.inj hn
        by_cases hall : Content.bytesLeft s.content ≤ buf.length
        · have hstatus : p'.parseStatus = .gotoNextSubparser := beq_iff_eq.mp (hfinished.mpr hall)
          have hlen : (buf.take (Content.bytesLeft s.content)).length =
              Content.bytesLeft s.content := List.length_take_of_le hall
          rw [ParserClass.parseRound_next hparser hwrite (hstat.trans hstatus) rfl]
          refine goes_next H heap (List.length_take_le' _ _) ?_ _
          have htake := SubParser.take_length_take (Content.bytesLeft s.content) buf
          exact htake.symm ▸ between_content H h hlen
        · have hstatus : p'.parseStatus = .getMoreData := by
            have hnot : ¬ p'.parseStatus = .gotoNextSubparser := fun hgoes =>
              hall (hfinished.mp (beq_iff_eq.mpr hgoes))
            cases hq : p'.parseStatus with
            | error => exact absurd hq herror
            | getMoreData => rfl
            | gotoNextSubparser => exact absurd hq hnot
          have hlt : buf.length < Content.bytesLeft s.content := not_le.mp hall
          obtain ⟨hwaiting, hleft⟩ := hmore hlt
          rw [ParserClass.parseRound_more hparser hwrite (hstat.trans hstatus)]
          refine goes_more (List.length_take_le' _ _) (.content head line lines (body ++ buf) ?_)
          have htake : buf.take (buf.take (Content.bytesLeft s.content)).length = buf := by
            rw [SubParser.take_length_take, List.take_of_length_le hlt.le]
          have hsum : buf.length + Content.bytesLeft p' = Content.bytesLeft s.content := by
            have hleft' : Content.bytesLeft p' = Content.bytesLeft s.content - buf.length := hleft
            omega
          exact htake.symm ▸ h.more id hwaiting hsum

/-- The end of the stream in the body. -/
theorem goes_content_ended (h : AtContent tags clean maxPostDataSize s got head line lines body) :
    Goes tags False maxPostDataSize maxHttpChunkSize got []
      ((parserClass H tags heap).parseRound s []).1
      ((parserClass H tags heap).parseRound s []).2 := by
  have hparsing : Parsing tags clean maxPostDataSize maxHttpChunkSize s got :=
    .content head line lines body h
  have hparser := hparsing.hasParser H heap
  by_cases hthrows : H.outStreamThrows s [] = true
  · have hwrite : (parserClass H tags heap).writeIntoParser s [] = (s, .exception) := by
      show writeIntoParser H tags heap s [] = _
      simp only [writeIntoParser, h.currentParser, hthrows, if_true]
    rw [ParserClass.parseRound_refused hparser hwrite rfl]
    exact .failed (.silent h.quiet.log)
  obtain ⟨p', hinto, hstatus, hwaiting, hleft⟩ := Content.writeIntoParser_ended heap h.waiting
  have hwrite : (parserClass H tags heap).writeIntoParser s [] =
      ({ s with content := p' }, .bytes 0) := by
    show writeIntoParser H tags heap s [] = _
    simp only [writeIntoParser, h.currentParser, hthrows, hinto]
    rfl
  rw [ParserClass.parseRound_more hparser hwrite (by
    show parseStatus { s with content := p' } = .getMoreData
    rw [parseStatus, h.currentParser]
    exact hstatus)]
  refine goes_more le_rfl (.content head line lines (body ++ []) ?_)
  exact h.more False.elim hwaiting (by rw [List.take_nil, List.length_nil, Nat.zero_add, hleft])

theorem goes_parsing (h64 : maxPostDataSize < 2 ^ 64)
    (h : Parsing tags clean maxPostDataSize maxHttpChunkSize s got) (hbuf : buf ≠ []) :
    Goes tags clean maxPostDataSize maxHttpChunkSize got buf
      ((parserClass H tags heap).parseRound s buf).1
      ((parserClass H tags heap).parseRound s buf).2 := by
  cases h with
  | requestLine h => exact goes_requestLine H heap h hbuf
  | headers head line lines h => exact goes_headers H heap h64 h hbuf
  | content head line lines body h => exact goes_content H heap h hbuf

theorem goes_ended (h64 : maxPostDataSize < 2 ^ 64)
    (h : Parsing tags clean maxPostDataSize maxHttpChunkSize s got) :
    Goes tags False maxPostDataSize maxHttpChunkSize got []
      ((parserClass H tags heap).parseRound s []).1
      ((parserClass H tags heap).parseRound s []).2 := by
  cases h with
  | requestLine h => exact goes_requestLine_ended H heap h
  | headers head line lines h => exact goes_headers_ended H heap h64 h
  | content head line lines body h => exact goes_content_ended H heap h

/-! ## Writes -/

/-- The rounds of a write. -/
theorem parseData_parsing (h64 : maxPostDataSize < 2 ^ 64) (ttl : ℕ)
    (h : Parsing tags clean maxPostDataSize maxHttpChunkSize s got) (hbuf : buf ≠ []) :
    Settled tags clean maxPostDataSize ((parserClass H tags heap).parseData ttl s buf).1
        (got ++ buf) ∧
      (((parserClass H tags heap).parseData ttl s buf).2 ≠ none →
        Between tags clean maxPostDataSize maxHttpChunkSize
          ((parserClass H tags heap).parseData ttl s buf).1 (got ++ buf)) := by
  induction ttl generalizing s got buf with
  | zero => exact ⟨.silent h.quiet.log, fun hne => absurd rfl hne⟩
  | succ ttl ih =>
      have hgoes := goes_parsing H heap h64 h hbuf
      rcases hround : (parserClass H tags heap).parseRound s buf with ⟨s', r⟩
      rw [hround] at hgoes
      cases hgoes with
      | failed hsettled =>
          rw [ParserClass.parseData_failed hround]
          exact ⟨hsettled, fun hne => absurd rfl hne⟩
      | answer n hbetween =>
          rw [ParserClass.parseData_answer hround]
          exact ⟨hbetween.settled, fun _ => hbetween⟩
      | left n hn hparsing =>
          rw [ParserClass.parseData_left hround]
          have hrest : buf.drop n ≠ [] := by
            rw [Ne, List.drop_eq_nil_iff]
            omega
          obtain ⟨hsettled, hbetween⟩ := ih hparsing hrest
          rw [List.append_assoc, List.take_append_drop] at hsettled hbetween
          refine ⟨hsettled, fun hne => hbetween fun hnone => hne ?_⟩
          rw [hnone]
          rfl

/-- The end of the stream is a round of its own. -/
theorem parseData_ended (h64 : maxPostDataSize < 2 ^ 64) (ttl : ℕ)
    (h : Parsing tags clean maxPostDataSize maxHttpChunkSize s got) :
    Settled tags False maxPostDataSize ((parserClass H tags heap).parseData (ttl + 1) s []).1 got ∧
      (((parserClass H tags heap).parseData (ttl + 1) s []).2 ≠ none →
        Between tags False maxPostDataSize maxHttpChunkSize
          ((parserClass H tags heap).parseData (ttl + 1) s []).1 got) := by
  have hgoes := goes_ended H heap h64 h
  rcases hround : (parserClass H tags heap).parseRound s [] with ⟨s', r⟩
  rw [hround] at hgoes
  cases hgoes with
  | failed hsettled =>
      rw [ParserClass.parseData_failed hround]
      rw [List.append_nil] at hsettled
      exact ⟨hsettled, fun hne => absurd rfl hne⟩
  | answer n hbetween =>
      rw [ParserClass.parseData_answer hround]
      rw [List.append_nil] at hbetween
      exact ⟨hbetween.settled, fun _ => hbetween⟩
  | left n hn hparsing => exact absurd hn (Nat.not_lt_zero n)

theorem write_between (h64 : maxPostDataSize < 2 ^ 64)
    (h : Between tags clean maxPostDataSize maxHttpChunkSize s got) (buf : List UInt8) :
    Settled tags (clean ∧ buf ≠ []) maxPostDataSize ((parserClass H tags heap).write s buf).1
        (got ++ buf) ∧
      (((parserClass H tags heap).write s buf).2 ≠ none →
        Between tags (clean ∧ buf ≠ []) maxPostDataSize maxHttpChunkSize
          ((parserClass H tags heap).write s buf).1 (got ++ buf)) := by
  cases h with
  | parsing h =>
      by_cases hbuf : buf = []
      · subst hbuf
        obtain ⟨hsettled, hbetween⟩ := parseData_ended H heap h64 (parserClass H tags heap).maxTTL h
        rw [List.append_nil]
        exact ⟨hsettled.mono fun hc => hc.2 rfl, fun hne => (hbetween hne).mono fun hc => hc.2 rfl⟩
      · obtain ⟨hsettled, hbetween⟩ :=
          parseData_parsing H heap h64 ((parserClass H tags heap).maxTTL + 1) h hbuf
        exact ⟨hsettled.mono And.left, fun hne => (hbetween hne).mono And.left⟩
  | closed hparser h =>
      have hnot : (parserClass H tags heap).hasParser s = false := by
        show s.currentParser.isSome = false
        rw [hparser]
        rfl
      have happended : Settled tags (clean ∧ buf ≠ []) maxPostDataSize s (got ++ buf) :=
        (h.append buf).mono And.left
      rw [ParserClass.write, ParserClass.parseData_of_not_hasParser hnot]
      exact ⟨happended, fun _ => .closed hparser happended⟩

/-! ## Connections -/

theorem settled_receive (h64 : maxPostDataSize < 2 ^ 64) (ws : List (List UInt8))
    (h : Between tags clean maxPostDataSize maxHttpChunkSize s got) :
    Settled tags (clean ∧ ∀ w ∈ ws, w ≠ []) maxPostDataSize (receive H tags heap s ws)
      (got ++ ws.flatten) := by
  induction ws generalizing clean s got with
  | nil =>
      rw [List.flatten_nil, List.append_nil]
      exact h.settled.mono And.left
  | cons w ws ih =>
      have hclean : (clean ∧ ∀ v ∈ w :: ws, v ≠ []) → (clean ∧ w ≠ []) ∧ ∀ v ∈ ws, v ≠ [] :=
        fun hc => ⟨⟨hc.1, hc.2 w (List.mem_cons_self ..)⟩,
          fun v hv => hc.2 v (List.mem_cons_of_mem w hv)⟩
      obtain ⟨hsettled, hbetween⟩ := write_between H heap h64 h w
      rw [receive]
      rcases hwrite : (parserClass H tags heap).write s w with ⟨s', n⟩
      rw [hwrite] at hsettled hbetween
      rw [List.flatten_cons, ← List.append_assoc]
      cases n with
      | none => exact (hsettled.append _).mono fun hc => (hclean hc).1
      | some n => exact (ih (hbetween (by simp))).mono hclean

/-- **A request is answered once.**  Whatever the virtual functions do, and however the bytes are
cut into writes, at any time of a connection there has been one answer at most;
`procHTTPClientContent` has been called once at most, not for a request that is refused, and only
when the request line and the headers were parsed and as many bytes of the body as they announce had
arrived; and behind an answer nothing that is written changes anything. -/
theorem answered_once (maxPostDataSize : UInt64) (maxHttpChunkSize : UInt32)
    (ws : List (List UInt8)) :
    AnsweredOnce H tags heap (∀ w ∈ ws, w ≠ []) maxPostDataSize.toNat
      (receive H tags heap (start maxPostDataSize.toNat maxHttpChunkSize.toNat) ws) ws.flatten := by
  have hstart := between_start tags True maxPostDataSize.toNat maxHttpChunkSize.toNat
  have hsettled := settled_receive H heap maxPostDataSize.toNat_lt ws hstart
  rw [List.nil_append] at hsettled
  exact (hsettled.mono fun hc => ⟨trivial, hc⟩).answeredOnce H heap

/-- A server whose virtual functions let everything pass. -/
def plainHandlers : Handlers where
  procHTTPClientURI _ := true
  procHTTPClientHeaders _ := true
  procHTTPClientContent _ := 200
  streamed _ := true
  outStreamThrows _ _ := false
  decodeFromBase64 := HTTPv1Server.base64Decoder

end HTTPv1Connection

end Mantids
