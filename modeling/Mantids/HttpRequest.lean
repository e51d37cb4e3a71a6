/-
# A well-formed request is handled

`answered_once` says what a connection of the HTTP server never does.  This is the other half: a
request that keeps to the limits of the server is handled, once, and as it was sent, in whatever
writes it arrives and whatever stands behind it.

* `Acceptable` — the server has no reason to refuse the request;
* `HandledAs` — the request was handled;
* `requestReader` — the server as a reader of messages;
* `request_handled` — the statement about all writes.
-/
import Mantids.HttpMessage

namespace Mantids

open Occurrence

/-! ## Requests -/

/-- The host and the port in the value of a `Host` header, as `parseHostOptions` reads it. -/
def hostOptions (hostVal : List UInt8) : List UInt8 × ℕ :=
  if hostVal = [] then ([], 80)
  else
    match splitCompress (· = 58) hostVal with
    | [] => ([], 80)
    | [host] => (host, 80)
    | host :: port :: _ => (host, strtoull port % 2 ^ 16)

/-- `HTTP::Content::eDataType`. -/
inductive ContainerType where
  | mime
  | url
  | json
  | bin
deriving DecidableEq

/-- `boost::icontains`. -/
def icontains (s needle : List UInt8) : Bool :=
  decide (toUpperBytes needle <:+: toUpperBytes s)

/-- The container that the server sets up for a body of some content type. -/
def containerType (contentType : List UInt8) : ContainerType :=
  if icontains contentType (bytesOf "multipart/form-data") then .mime
  else if icontains contentType (bytesOf "application/x-www-form-urlencoded") then .url
  else if icontains contentType (bytesOf "application/json") then .json
  else .bin

namespace MessageText

variable (tags : ℕ → List UInt8) (m : MessageText)

/-- The host that a request names. -/
def host : List UInt8 × ℕ :=
  hostOptions ((m.headers tags).getOptionValueStringByName (bytesOf "HOST"))

/-- The server has no reason to refuse the request, its lines fit in the buffers, and its body goes
to the container that the model has: the one of bytes. -/
structure Acceptable (maxPostDataSize : ℕ) (request : RequestLine) : Prop
    extends m.Fits (128 * 1024) maxPostDataSize where
  parsed : RequestLine.ofText {} m.line = some request
  version : request.httpVersion.majorVersion = 1
  host : 1 ≤ request.httpVersion.minorVersion → (m.host tags).1 ≠ []
  length : strtoull ((m.headers tags).getOptionValueStringByName (bytesOf "Content-Length")) =
    m.body.length
  container : containerType ((m.headers tags).getOptionValueStringByName
    (bytesOf "Content-Type")) = .bin

end MessageText

/-- The virtual functions let every request pass, and the container of the body does not throw. -/
structure Handlers.Permits (H : Handlers) : Prop where
  uri : ∀ s, H.procHTTPClientURI s = true
  headers : ∀ s, H.procHTTPClientHeaders s = true
  body : ∀ s w, H.outStreamThrows s w = false

namespace HTTPv1Connection

open MimeSubHeader

variable (H : Handlers) (tags : ℕ → List UInt8) (heap : ℕ → ℕ → UInt8)

/-! ## What a connection has of a request -/

/-- The connection has the line, the headers and the host of a request. -/
structure HeadRead (m : MessageText) (request : RequestLine) (s : HTTPv1Connection) : Prop where
  request : s.requestLine.derived = request
  headers : s.headers.derived = m.headers tags
  host : (s.virtualHost, s.virtualPort) = m.host tags

/-- The connection has a whole request. -/
structure Shows (m : MessageText) (request : RequestLine) (s : HTTPv1Connection) : Prop
    extends HeadRead tags m request s where
  body : s.content.derived.outStream.bytes = m.body

/-- The request was handled: `procHTTPClientContent` was called once, with the whole request, and
its code is that of the answer; the connection is over. -/
structure HandledAs (m : MessageText) (request : RequestLine) (s : HTTPv1Connection) : Prop where
  log : s.log = [.answer, .procHTTPClientContent false]
  currentParser : s.currentParser = none
  shows : Shows tags m request s
  answered : ∃ shown, Shows tags m request shown ∧ s.responseCode = H.procHTTPClientContent shown

/-! ## The stages -/

/-- No answer so far, and nothing known of the host and the body. -/
structure Untouched (maxPostDataSize maxHttpChunkSize : ℕ) (s : HTTPv1Connection) : Prop
    extends Quiet s where
  virtualHost : s.virtualHost = []
  virtualPort : s.virtualPort = 80
  content : s.content = Content.fresh maxPostDataSize maxHttpChunkSize

/-- The request line is being read. -/
structure InLine (maxPostDataSize maxHttpChunkSize : ℕ) (p : SubParser RequestLine)
    (s : HTTPv1Connection) : Prop extends Untouched maxPostDataSize maxHttpChunkSize s where
  currentParser : s.currentParser = some .requestLine
  requestLine : s.requestLine = p
  headers : s.headers = SubParser.start MimeSubHeader.settings {}

/-- The headers are being read. -/
structure InHeaders (request : RequestLine) (maxPostDataSize maxHttpChunkSize : ℕ)
    (p : SubParser MimeSubHeader) (s : HTTPv1Connection) : Prop
    extends Untouched maxPostDataSize maxHttpChunkSize s where
  currentParser : s.currentParser = some .headers
  request : s.requestLine.derived = request
  headers : s.headers = p

/-- The body is being read. -/
structure InBody (m : MessageText) (request : RequestLine) (p : SubParser Content)
    (s : HTTPv1Connection) : Prop extends Quiet s, HeadRead tags m request s where
  currentParser : s.currentParser = some .content
  content : s.content = p

variable {H} {tags} {heap} {m : MessageText} {request : RequestLine} {s : HTTPv1Connection}
  {maxPostDataSize maxHttpChunkSize : ℕ}

theorem hasParser_of_some {x : RequestParser} (hparser : s.currentParser = some x) :
    (parserClass H tags heap).hasParser s = true := by
  show s.currentParser.isSome = true
  rw [hparser]
  rfl

theorem currentLine : Current (parserClass H tags heap)
    (SubParser.writeIntoParser RequestLine.parse heap)
    (InLine maxPostDataSize maxHttpChunkSize) where
  hasParser h := hasParser_of_some h.currentParser
  parseStatus {p s} h := by
    show parseStatus s = p.parseStatus
    rw [parseStatus, h.currentParser, ← h.requestLine]
  writes {p s} h buf := by
    refine ⟨{ s with
      requestLine := (SubParser.writeIntoParser RequestLine.parse heap
        (p.setParseStatus .getMoreData) buf).1 }, ?_, ?_⟩
    rotate_left
    · exact ⟨⟨⟨h.log, h.badAnswer⟩, h.virtualHost, h.virtualPort, h.content⟩, h.currentParser, rfl,
        h.headers⟩
    show writeIntoParser H tags heap s buf = _
    simp only [writeIntoParser, h.currentParser, h.requestLine]

theorem currentHeaders : Current (parserClass H tags heap)
    (SubParser.writeIntoParser (MimeSubHeader.parse tags) heap)
    (InHeaders request maxPostDataSize maxHttpChunkSize) where
  hasParser h := hasParser_of_some h.currentParser
  parseStatus {p s} h := by
    show parseStatus s = p.parseStatus
    rw [parseStatus, h.currentParser, ← h.headers]
  writes {p s} h buf := by
    refine ⟨{ s with
      headers := (SubParser.writeIntoParser (MimeSubHeader.parse tags) heap
        (p.setParseStatus .getMoreData) buf).1 }, ?_, ?_⟩
    rotate_left
    · exact ⟨⟨⟨h.log, h.badAnswer⟩, h.virtualHost, h.virtualPort, h.content⟩, h.currentParser,
        h.request, rfl⟩
    show writeIntoParser H tags heap s buf = _
    simp only [writeIntoParser, h.currentParser, h.headers]

theorem currentBody (hH : H.Permits) : Current (parserClass H tags heap)
    (Content.writeIntoParser heap) (InBody tags m request) where
  hasParser h := hasParser_of_some h.currentParser
  parseStatus {p s} h := by
    show parseStatus s = p.parseStatus
    rw [parseStatus, h.currentParser, ← h.content]
  writes {p s} h buf := by
    refine ⟨{ s with
      content := (Content.writeIntoParser heap (p.setParseStatus .getMoreData) buf).1 }, ?_, ?_⟩
    rotate_left
    · exact ⟨⟨h.log, h.badAnswer⟩, ⟨h.request, h.headers, h.host⟩, h.currentParser, rfl⟩
    show writeIntoParser H tags heap s buf = _
    simp only [writeIntoParser, h.currentParser, hH.body, Bool.false_eq_true, if_false, h.content]

/-! ## Between the stages -/

/-- The answer to a whole request. -/
theorem handledAs_answer (hquiet : s.Quiet) (h : Shows tags m request s) :
    HandledAs H tags m request (s.answer H).1 := by
  unfold answer
  simp only [hquiet.badAnswer, hquiet.log, Bool.false_eq_true, if_false]
  refine ⟨rfl, rfl, ⟨⟨h.request, h.headers, h.host⟩, h.body⟩, _, ?_, rfl⟩
  exact ⟨⟨h.request, h.headers, h.host⟩, h.body⟩

/-- Behind a request line that is accepted the headers are next. -/
theorem change_requestLine_accepted (hH : H.Permits)
    (hparser : s.currentParser = some .requestLine) (hquiet : s.Quiet)
    (hversion : s.requestLine.derived.httpVersion.majorVersion = 1) :
    s.changeToNextParser H =
      ({ s with
          responseVersion := ⟨1, s.requestLine.derived.httpVersion.minorVersion⟩
          currentParser := some .headers }, true) := by
  rw [changeToNextParser, hparser]
  simp only [changeToNextParserFromClientRequestLine]
  unfold prepareServerVersionOnURI
  rw [if_neg (not_not.mpr hversion)]
  simp only [hquiet.badAnswer, Bool.false_eq_true, if_false, hH.uri, if_true]

/-- The host and the port that the server takes from its headers. -/
theorem parseHostOptions_eq (hhost : s.virtualHost = []) (hport : s.virtualPort = 80) :
    s.parseHostOptions =
      { s with
        virtualHost := (hostOptions (s.headers.derived.getOptionValueStringByName
          (bytesOf "HOST"))).1
        virtualPort := (hostOptions (s.headers.derived.getOptionValueStringByName
          (bytesOf "HOST"))).2 } := by
  unfold parseHostOptions hostOptions
  simp only
  by_cases hval : s.headers.derived.getOptionValueStringByName (bytesOf "HOST") = []
  · simp only [if_pos hval]
    cases s
    cases hhost
    cases hport
    rfl
  · simp only [if_neg hval]
    cases splitCompress (· = 58)
      (s.headers.derived.getOptionValueStringByName (bytesOf "HOST")) with
    | nil =>
        cases s
        cases hhost
        rfl
    | cons host ports => cases ports <;> rfl

/-- What the server takes from headers that it accepts. -/
theorem readHeaders_accepted (hm : m.Acceptable tags maxPostDataSize request)
    (untouched : Untouched maxPostDataSize maxHttpChunkSize s)
    (hrequest : s.requestLine.derived = request) (hheaders : s.headers.derived = m.headers tags) :
    (s.readHeaders H).Quiet ∧ HeadRead tags m request (s.readHeaders H) ∧
      (s.readHeaders H).content = s.content := by
  have hhost : (hostOptions (s.headers.derived.getOptionValueStringByName (bytesOf "HOST"))) =
      m.host tags := by
    rw [hheaders, MessageText.host]
  have hoptions := parseHostOptions_eq untouched.virtualHost untouched.virtualPort
  rw [hhost] at hoptions
  have hnamed : ¬ (1 ≤ s.requestLine.derived.httpVersion.minorVersion ∧ (m.host tags).1 = []) := by
    rintro ⟨hminor, hnone⟩
    rw [hrequest] at hminor
    exact hm.host hminor hnone
  unfold readHeaders prepareServerVersionOnOptions
  simp only [hoptions, if_neg hnamed]
  split <;> exact ⟨⟨untouched.log, untouched.badAnswer⟩, ⟨hrequest, hheaders, rfl⟩, rfl⟩

/-- Behind headers that are accepted: a request without a body is handled, and otherwise the body is
next. -/
theorem change_headers_accepted (hH : H.Permits) (hm : m.Acceptable tags maxPostDataSize request)
    (hparser : s.currentParser = some .headers)
    (untouched : Untouched maxPostDataSize maxHttpChunkSize s)
    (hrequest : s.requestLine.derived = request) (hheaders : s.headers.derived = m.headers tags) :
    HandledAs H tags m request (s.changeToNextParser H).1 ∨
      (m.body ≠ [] ∧ ∃ s', s.changeToNextParser H = (s', true) ∧
        s'.currentParser = some .content ∧ s'.Quiet ∧ HeadRead tags m request s' ∧
        s'.content =
          Content.withContentLength maxPostDataSize maxHttpChunkSize m.body.length) := by
  obtain ⟨hquiet, hhead, hcontent⟩ := readHeaders_accepted (H := H) hm untouched hrequest hheaders
  have hlen : (s.readHeaders H).contentLength = m.body.length := by
    rw [contentLength, hhead.headers]
    exact hm.length
  rw [changeToNextParser, hparser]
  simp only [changeToNextParserFromClientHeaders, hquiet.badAnswer, Bool.false_eq_true, if_false]
  unfold prepareContent
  by_cases hbody : m.body = []
  · rw [hbody, List.length_nil] at hlen
    simp only [hlen, if_true, hH.headers, Bool.true_eq_false, if_false]
    refine Or.inl (handledAs_answer hquiet ⟨hhead, ?_⟩)
    rw [hcontent, untouched.content, hbody]
    rfl
  · have hpos : ¬ m.body.length = 0 := fun hzero => hbody (List.length_eq_zero_iff.mp hzero)
    have hlimit : ¬ (Content.setTransmitionMode (Content.fresh maxPostDataSize maxHttpChunkSize)
        .contentLength).derived.securityMaxPostDataSize < m.body.length :=
      Nat.not_lt.mpr hm.bodyFits
    have hset : (Content.setContentLenSize
        (Content.setTransmitionMode (s.readHeaders H).content .contentLength)
          m.body.length).2 = true := by
      rw [hcontent, untouched.content, Content.setContentLenSize, if_neg hlimit]
    simp only [hlen, if_neg hpos, hset, hH.headers, Bool.true_eq_false, if_false]
    have hkept : contentLength { s.readHeaders H with
        content := (Content.setContentLenSize (Content.setTransmitionMode (s.readHeaders H).content
          .contentLength) m.body.length).1 } = m.body.length := hlen
    rw [if_neg (by rw [hkept]; exact hpos)]
    refine Or.inr ⟨hbody, _, rfl, rfl, ⟨hquiet.log, hquiet.badAnswer⟩,
      ⟨hhead.request, hhead.headers, hhead.host⟩, ?_⟩
    rw [hcontent, untouched.content]
    rfl

/-- Behind the body the request is handled. -/
theorem change_content_handled (hparser : s.currentParser = some .content) (hquiet : s.Quiet)
    (h : Shows tags m request s) : HandledAs H tags m request (s.changeToNextParser H).1 := by
  rw [changeToNextParser, hparser]
  apply handledAs_answer
  · exact ⟨hquiet.log, hquiet.badAnswer⟩
  · exact ⟨⟨h.request, h.headers, h.host⟩, h.body⟩

/-! ## Connections -/

/-- The server as a reader of a request that it accepts. -/
def requestReader (heap : ℕ → ℕ → UInt8) (maxHttpChunkSize : ℕ) (hH : H.Permits)
    (hm : m.Acceptable tags maxPostDataSize request) :
    MessageReader (parserClass H tags heap) RequestLine.parse tags heap m maxPostDataSize
      maxHttpChunkSize where
  AtLine := InLine maxPostDataSize maxHttpChunkSize
  AtHeaders := InHeaders request maxPostDataSize maxHttpChunkSize
  AtBody := InBody tags m request
  Done := HandledAs H tags m request
  settings := RequestLine.settings
  initial := {}
  value := request
  initialHeaders := {}
  parseMode := rfl
  parseDelimiter := rfl
  parseDataTargetSize := le_rfl
  keepsSettings := keepsSettings_requestLine
  parses st found := by simp only [RequestLine.parse, hm.parsed]
  currentLine := currentLine
  currentHeaders := currentHeaders
  currentBody := currentBody hH
  done_hasParser {s} h := by
    show s.currentParser.isSome = false
    rw [h.currentParser]
    rfl
  change_line {p s} h hvalue := by
    have hversion : s.requestLine.derived.httpVersion.majorVersion = 1 := by
      rw [h.requestLine, hvalue]
      exact hm.version
    refine ⟨_, change_requestLine_accepted hH h.currentParser h.toQuiet hversion, ?_⟩
    exact ⟨⟨⟨h.log, h.badAnswer⟩, h.virtualHost, h.virtualPort, h.content⟩, rfl,
      (congrArg SubParser.derived h.requestLine).trans hvalue, h.headers⟩
  change_headers {p s} h hheaders := by
    have hderived : s.headers.derived = m.headers tags := by
      rw [h.headers, hheaders]
      rfl
    rcases change_headers_accepted hH hm h.currentParser h.toUntouched h.request hderived with
      hhandled | ⟨hbody, s', hchange, hcurrent, hquiet, hhead, hcontent⟩
    · exact Or.inl hhandled
    · exact Or.inr ⟨hbody, s', hchange, hquiet, hhead, hcurrent, hcontent⟩
  change_body {p s} h hbody :=
    change_content_handled h.currentParser h.toQuiet
      ⟨h.toHeadRead, (congrArg (fun q => q.derived.outStream.bytes) h.content).trans hbody⟩

theorem receive_eq (s : HTTPv1Connection) (ws : List (List UInt8)) :
    receive H tags heap s ws = (parserClass H tags heap).receive s ws := by
  induction ws generalizing s with
  | nil => rfl
  | cons w ws ih =>
      rw [receive, ParserClass.receive]
      rcases (parserClass H tags heap).write s w with ⟨s', x⟩
      cases x with
      | none => rfl
      | some n => exact ih s'

/-- The writes that bring a request that is accepted. -/
theorem handledAs_receive (hH : H.Permits) (hm : m.Acceptable tags maxPostDataSize request)
    (h64 : maxPostDataSize < 2 ^ 64) (hlines : m.lines.length + 2 ≤ 4096) {more : List UInt8}
    {ws : List (List UInt8)} (hws : ∀ w ∈ ws, w ≠ [])
    (hroom : ws.length + m.body.length / (64 * 1024) ≤ 256 * 1024)
    (hbytes : ws.flatten = m.bytes ++ more) :
    HandledAs H tags m request
      (receive H tags heap (start maxPostDataSize maxHttpChunkSize) ws) := by
  rw [receive_eq]
  apply (requestReader heap maxHttpChunkSize hH hm).received hm.toFits h64 hlines ?_ hws hroom
    hbytes
  exact ⟨⟨⟨rfl, rfl⟩, rfl, rfl, rfl⟩, rfl, rfl, rfl⟩

end HTTPv1Connection

end Mantids
