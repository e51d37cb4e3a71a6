/-
# A response as the client reads it

`HTTPv1_Client` (`Protocol_HTTP/httpv1_client.cpp`) is a `Parser` like the server: it reads a status
line, headers and a body.  `received` holds for it as for the server.

* `Status`, `HTTPv1ClientParser` — the status line, and the client while it reads;
* `Acceptable` — the client has no reason to stop in front of the end of the response;
* `ReadAs` — the client has the whole response;
* `responseReader` — the client as a reader of messages;
* `response_read` — the statement about all writes;
* `server_unseen` — what a client does not see of a server.

A response that the client does not accept ends as one that it has read: `changeToNextParser` does
not fail, and a length that is too large only leaves the body out.
-/
import Mantids.HeaderPolicies
import Mantids.HttpEndToEnd

namespace Mantids

open Occurrence

/-! ## The status line -/

/-- `HTTP::Status`; the code is of 16 bits. -/
structure Status where
  httpVersion : HttpVersion := {}
  statusCode : ℕ := 1000
  statusMessage : List UInt8 := []
deriving DecidableEq

namespace Status

/-- What `parse()` makes of a status line; `none` if it has less than two parts. -/
def ofText (clientRequest : List UInt8) : Option Status :=
  match splitCompress (fun c => c = 9 ∨ c = 32) clientRequest with
  | httpVersion :: statusCode :: statusMessage =>
    some ⟨HttpVersion.parse httpVersion, strtoull statusCode % 2 ^ 16,
      [32].intercalate statusMessage⟩
  | _ => none

/-- `parse()`. -/
def parse : Parse Status := fun r st shown =>
  match ofText shown.parsedBuffer with
  | none => (r, st, .error)
  | some r => (r, st, .gotoNextSubparser)

/-- What the constructor sets: a line of at most 128 bytes. -/
def settings : ParseSettings :=
  { parseMode := .delimiter, parseDelimiter := [13, 10], parseDataTargetSize := 128 }

theorem keepsSettings : SubParser.KeepsSettings parse := by
  intro d st shown
  unfold parse
  split <;> exact ⟨rfl, rfl, fun _ => rfl, fun _ => rfl⟩

end Status

/-! ## The client -/

/-- What `m_currentParser` points to. -/
inductive ResponseParser where
  | status
  | headers
  | content
deriving DecidableEq

/-- The fields of `HTTPv1_Client` that parsing a response uses. -/
structure HTTPv1ClientParser where
  /-- `m_currentParser`. -/
  currentParser : Option ResponseParser := some .status
  status : SubParser Status := SubParser.start Status.settings {}
  headers : SubParser MimeSubHeader
  content : SubParser Content
  cacheControl : CacheControl := {}
  hsts : HSTS := {}
  disableNoSniffContentType : Bool := false
  serverContentType : List UInt8 := []

namespace HTTPv1ClientParser

variable (tags : ℕ → List UInt8) (heap : ℕ → ℕ → UInt8)

/-- `serverResponse.headers` of a new client: the constructor has put its product there. -/
def initialHeaders (product : List UInt8) : MimeSubHeader :=
  MimeSubHeader.replace tags {} (bytesOf "Server") product

/-- A client in front of a response, with the limits on the body. -/
def start (product : List UInt8) (maxPostDataSize maxHttpChunkSize : ℕ) : HTTPv1ClientParser where
  headers := SubParser.start MimeSubHeader.settings (initialHeaders tags product)
  content := Content.fresh maxPostDataSize maxHttpChunkSize

/-- `getOptionAsUINT64("Content-Length")`. -/
def contentLength (s : HTTPv1ClientParser) : ℕ :=
  strtoull (s.headers.derived.getOptionValueStringByName (bytesOf "Content-Length"))

/-- `parseHeaders2TransmitionMode`, with the sub-parser that it returns. -/
def parseHeaders2TransmitionMode (s : HTTPv1ClientParser) :
    HTTPv1ClientParser × Option ResponseParser :=
  let s := { s with content := Content.setTransmitionMode s.content .connectionClose }
  if s.headers.derived.exist (bytesOf "Content-Length") then
    let len := s.contentLength
    let s := { s with content := Content.setTransmitionMode s.content .contentLength }
    if len = 0 then (s, none)
    else
      let r := Content.setContentLenSize s.content len
      ({ s with content := r.1 }, if r.2 then some .content else none)
  else if icontains
      (s.headers.derived.getOptionValueStringByName (bytesOf "Transfer-Encoding"))
      (bytesOf "CHUNKED") then
    ({ s with content := Content.setTransmitionMode s.content .chunks }, some .content)
  else (s, some .content)

/-- The part of `changeToNextParser` that reads the headers. -/
def readHeaders (s : HTTPv1ClientParser) : HTTPv1ClientParser :=
  let raw := s.headers.derived.getOptionRawStringByName
  { s with
    cacheControl := CacheControl.fromText (raw (bytesOf "Cache-Control"))
    hsts := HSTS.fromText (raw (bytesOf "Strict-Transport-Security"))
    disableNoSniffContentType :=
      toUpperBytes (raw (bytesOf "X-Content-Type-Options")) = toUpperBytes (bytesOf "nosniff")
    serverContentType := raw (bytesOf "Content-Type") }

/-- `changeToNextParser`. -/
def changeToNextParser (s : HTTPv1ClientParser) : HTTPv1ClientParser × Bool :=
  match s.currentParser with
  | some .status => ({ s with currentParser := some .headers }, true)
  | some .headers =>
    let r := s.readHeaders.parseHeaders2TransmitionMode
    ({ r.1 with currentParser := r.2 }, true)
  | _ => ({ s with currentParser := none }, true)

/-- `writeIntoParser` of the current sub-parser. -/
def writeIntoParser (s : HTTPv1ClientParser) (buf : List UInt8) : HTTPv1ClientParser × Written :=
  match s.currentParser with
  | none => (s, .bytes 0)
  | some .status =>
    let r := (s.status.setParseStatus .getMoreData).writeIntoParser Status.parse heap buf
    ({ s with status := r.1 }, r.2)
  | some .headers =>
    let r := (s.headers.setParseStatus .getMoreData).writeIntoParser (MimeSubHeader.parse tags) heap
      buf
    ({ s with headers := r.1 }, r.2)
  | some .content =>
    let r := Content.writeIntoParser heap (s.content.setParseStatus .getMoreData) buf
    ({ s with content := r.1 }, r.2)

/-- The status of the current sub-parser. -/
def parseStatus (s : HTTPv1ClientParser) : ParseStatus :=
  match s.currentParser with
  | none => .getMoreData
  | some .status => s.status.parseStatus
  | some .headers => s.headers.parseStatus
  | some .content => s.content.parseStatus

/-- `HTTPv1_Client` as a class derived from `Parser`. -/
def parserClass : ParserClass HTTPv1ClientParser where
  hasParser s := s.currentParser.isSome
  writeIntoParser := writeIntoParser tags heap
  parseStatus := parseStatus
  changeToNextParser := changeToNextParser

/-! ## What a client has of a response -/

/-- The headers of a response, behind the one that the client starts with. -/
def responseHeaders (product : List UInt8) (m : MessageText) : MimeSubHeader :=
  m.lines.foldl (MimeSubHeader.parseOptionValue tags) (initialHeaders tags product)

variable (product : List UInt8)

/-- The client has no reason to stop in front of the end of the response, and its lines fit in the
buffers. -/
structure Acceptable (m : MessageText) (maxPostDataSize : ℕ) (status : Status) : Prop
    extends m.Fits 128 maxPostDataSize where
  parsed : Status.ofText m.line = some status
  announced : (responseHeaders tags product m).exist (bytesOf "Content-Length") = true
  length : strtoull ((responseHeaders tags product m).getOptionValueStringByName
    (bytesOf "Content-Length")) = m.body.length

/-- The client has the line and the headers of a response, and what it takes from these. -/
structure HeadRead (m : MessageText) (status : Status) (s : HTTPv1ClientParser) : Prop where
  status : s.status.derived = status
  headers : s.headers.derived = responseHeaders tags product m
  cacheControl : s.cacheControl = CacheControl.fromText
    ((responseHeaders tags product m).getOptionRawStringByName (bytesOf "Cache-Control"))
  hsts : s.hsts = HSTS.fromText ((responseHeaders tags product m).getOptionRawStringByName
    (bytesOf "Strict-Transport-Security"))
  noSniff : s.disableNoSniffContentType = decide (toUpperBytes
    ((responseHeaders tags product m).getOptionRawStringByName (bytesOf "X-Content-Type-Options")) =
      toUpperBytes (bytesOf "nosniff"))
  contentType : s.serverContentType =
    (responseHeaders tags product m).getOptionRawStringByName (bytesOf "Content-Type")

/-- The client has a whole response, and reads no more. -/
structure ReadAs (m : MessageText) (status : Status) (s : HTTPv1ClientParser) : Prop
    extends HeadRead tags product m status s where
  currentParser : s.currentParser = none
  body : s.content.derived.outStream.bytes = m.body

/-! ## The stages -/

/-- The status line is being read. -/
structure InStatus (maxPostDataSize maxHttpChunkSize : ℕ) (p : SubParser Status)
    (s : HTTPv1ClientParser) : Prop where
  currentParser : s.currentParser = some .status
  status : s.status = p
  headers : s.headers = SubParser.start MimeSubHeader.settings (initialHeaders tags product)
  content : s.content = Content.fresh maxPostDataSize maxHttpChunkSize

/-- The headers are being read. -/
structure InHeaders (status : Status) (maxPostDataSize maxHttpChunkSize : ℕ)
    (p : SubParser MimeSubHeader) (s : HTTPv1ClientParser) : Prop where
  currentParser : s.currentParser = some .headers
  status : s.status.derived = status
  headers : s.headers = p
  content : s.content = Content.fresh maxPostDataSize maxHttpChunkSize

/-- The body is being read. -/
structure InBody (m : MessageText) (status : Status) (p : SubParser Content)
    (s : HTTPv1ClientParser) : Prop extends HeadRead tags product m status s where
  currentParser : s.currentParser = some .content
  content : s.content = p

variable {tags heap product} {m : MessageText} {status : Status} {s : HTTPv1ClientParser}
  {maxPostDataSize maxHttpChunkSize : ℕ}

theorem hasParser_of_some {x : ResponseParser} (hparser : s.currentParser = some x) :
    (parserClass tags heap).hasParser s = true := by
  show s.currentParser.isSome = true
  rw [hparser]
  rfl

theorem currentStatus : Current (parserClass tags heap)
    (SubParser.writeIntoParser Status.parse heap)
    (InStatus tags product maxPostDataSize maxHttpChunkSize) where
  hasParser h := hasParser_of_some h.currentParser
  parseStatus {p s} h := by
    show parseStatus s = p.parseStatus
    rw [parseStatus, h.currentParser, ← h.status]
  writes {p s} h buf := by
    refine ⟨{ s with
      status := (SubParser.writeIntoParser Status.parse heap
        (p.setParseStatus .getMoreData) buf).1 }, ?_, ?_⟩
    rotate_left
    · exact ⟨h.currentParser, rfl, h.headers, h.content⟩
    show writeIntoParser tags heap s buf = _
    simp only [writeIntoParser, h.currentParser, h.status]

theorem currentHeaders : Current (parserClass tags heap)
    (SubParser.writeIntoParser (MimeSubHeader.parse tags) heap)
    (InHeaders status maxPostDataSize maxHttpChunkSize) where
  hasParser h := hasParser_of_some h.currentParser
  parseStatus {p s} h := by
    show parseStatus s = p.parseStatus
    rw [parseStatus, h.currentParser, ← h.headers]
  writes {p s} h buf := by
    refine ⟨{ s with
      headers := (SubParser.writeIntoParser (MimeSubHeader.parse tags) heap
        (p.setParseStatus .getMoreData) buf).1 }, ?_, ?_⟩
    rotate_left
    · exact ⟨h.currentParser, h.status, rfl, h.content⟩
    show writeIntoParser tags heap s buf = _
    simp only [writeIntoParser, h.currentParser, h.headers]

theorem currentBody : Current (parserClass tags heap) (Content.writeIntoParser heap)
    (InBody tags product m status) where
  hasParser h := hasParser_of_some h.currentParser
  parseStatus {p s} h := by
    show parseStatus s = p.parseStatus
    rw [parseStatus, h.currentParser, ← h.content]
  writes {p s} h buf := by
    refine ⟨{ s with
      content := (Content.writeIntoParser heap (p.setParseStatus .getMoreData) buf).1 }, ?_, ?_⟩
    rotate_left
    · exact ⟨⟨h.status, h.headers, h.cacheControl, h.hsts, h.noSniff, h.contentType⟩,
        h.currentParser, rfl⟩
    show writeIntoParser tags heap s buf = _
    simp only [writeIntoParser, h.currentParser, h.content]

/-! ## Between the stages -/

theorem headRead_readHeaders (hstatus : s.status.derived = status)
    (hheaders : s.headers.derived = responseHeaders tags product m) :
    HeadRead tags product m status s.readHeaders where
  status := hstatus
  headers := hheaders
  cacheControl := by rw [← hheaders]; rfl
  hsts := by rw [← hheaders]; rfl
  noSniff := by rw [← hheaders]; rfl
  contentType := by rw [← hheaders]; rfl

/-- No body, as it is announced. -/
theorem parseHeaders2TransmitionMode_nothing
    (announced : s.headers.derived.exist (bytesOf "Content-Length") = true)
    (hzero : s.contentLength = 0) :
    s.parseHeaders2TransmitionMode =
      ({ s with
          content := Content.setTransmitionMode
            (Content.setTransmitionMode s.content .connectionClose) .contentLength }, none) := by
  unfold parseHeaders2TransmitionMode
  simp only [announced, if_true]
  exact if_pos hzero

/-- A body of which the length is announced. -/
theorem parseHeaders2TransmitionMode_announced
    (announced : s.headers.derived.exist (bytesOf "Content-Length") = true)
    (hpos : s.contentLength ≠ 0) {r : SubParser Content × Bool}
    (hr : Content.setContentLenSize (Content.setTransmitionMode
      (Content.setTransmitionMode s.content .connectionClose) .contentLength) s.contentLength = r) :
    s.parseHeaders2TransmitionMode =
      ({ s with content := r.1 }, if r.2 then some .content else none) := by
  subst hr
  unfold parseHeaders2TransmitionMode
  simp only [announced, if_true]
  exact if_neg hpos

/-- The mode that was set in between leaves nothing behind. -/
theorem setContentLenSize_fresh {n : ℕ} (hn : n ≤ maxPostDataSize) :
    Content.setContentLenSize (Content.setTransmitionMode (Content.setTransmitionMode
      (Content.fresh maxPostDataSize maxHttpChunkSize) .connectionClose) .contentLength) n =
        (Content.withContentLength maxPostDataSize maxHttpChunkSize n, true) := by
  have hset {p : SubParser Content} (hp : n ≤ p.derived.securityMaxPostDataSize) :
      Content.setContentLenSize p n =
        (Content.applySettings
          { p with derived := { p.derived with currentContentLengthSize := n } }
          { p.settings with parseDataTargetSize := n }, true) :=
    if_neg (Nat.not_lt.mpr hp)
  rw [Content.withContentLength, hset hn, hset hn]
  rfl

/-- Behind headers that are accepted: a response without a body has been read, and otherwise the
body is next. -/
theorem change_headers_accepted (hm : Acceptable tags product m maxPostDataSize status)
    (hparser : s.currentParser = some .headers) (hstatus : s.status.derived = status)
    (hheaders : s.headers.derived = responseHeaders tags product m)
    (hcontent : s.content = Content.fresh maxPostDataSize maxHttpChunkSize) :
    ReadAs tags product m status s.changeToNextParser.1 ∨
      (m.body ≠ [] ∧ ∃ s', s.changeToNextParser = (s', true) ∧
        InBody tags product m status
          (Content.withContentLength maxPostDataSize maxHttpChunkSize m.body.length) s') := by
  have hhead := headRead_readHeaders hstatus hheaders
  have announced : s.readHeaders.headers.derived.exist (bytesOf "Content-Length") = true := by
    rw [hhead.headers]
    exact hm.announced
  have hlen : s.readHeaders.contentLength = m.body.length := by
    rw [contentLength, hhead.headers]
    exact hm.length
  rw [changeToNextParser, hparser]
  by_cases hbody : m.body = []
  · have hzero : s.readHeaders.contentLength = 0 :=
      hlen.trans (List.length_eq_zero_iff.mpr hbody)
    refine Or.inl ?_
    simp only [parseHeaders2TransmitionMode_nothing announced hzero]
    refine ⟨⟨hhead.status, hhead.headers, hhead.cacheControl, hhead.hsts, hhead.noSniff,
      hhead.contentType⟩, rfl, ?_⟩
    show s.content.derived.outStream.bytes = m.body
    rw [hcontent, hbody]
    rfl
  · have hpos : s.readHeaders.contentLength ≠ 0 := by
      rw [hlen]
      exact fun hzero => hbody (List.length_eq_zero_iff.mp hzero)
    have hset : Content.setContentLenSize (Content.setTransmitionMode
        (Content.setTransmitionMode s.readHeaders.content .connectionClose) .contentLength)
          s.readHeaders.contentLength =
        (Content.withContentLength maxPostDataSize maxHttpChunkSize m.body.length, true) := by
      rw [hlen, show s.readHeaders.content = s.content from rfl, hcontent]
      exact setContentLenSize_fresh hm.bodyFits
    refine Or.inr ⟨hbody, _, rfl, ?_⟩
    simp only [parseHeaders2TransmitionMode_announced announced hpos hset, if_true]
    exact ⟨⟨hhead.status, hhead.headers, hhead.cacheControl, hhead.hsts, hhead.noSniff,
      hhead.contentType⟩, rfl, rfl⟩

/-! ## Responses -/

/-- The client as a reader of a response that it accepts. -/
def responseReader (heap : ℕ → ℕ → UInt8) (maxHttpChunkSize : ℕ)
    (hm : Acceptable tags product m maxPostDataSize status) :
    MessageReader (parserClass tags heap) Status.parse tags heap m maxPostDataSize
      maxHttpChunkSize where
  AtLine := InStatus tags product maxPostDataSize maxHttpChunkSize
  AtHeaders := InHeaders status maxPostDataSize maxHttpChunkSize
  AtBody := InBody tags product m status
  Done := ReadAs tags product m status
  settings := Status.settings
  initial := {}
  value := status
  initialHeaders := initialHeaders tags product
  parseMode := rfl
  parseDelimiter := rfl
  parseDataTargetSize := by decide
  keepsSettings := Status.keepsSettings
  parses st found := by simp only [Status.parse, hm.parsed]
  currentLine := currentStatus
  currentHeaders := currentHeaders
  currentBody := currentBody
  done_hasParser {s} h := by
    show s.currentParser.isSome = false
    rw [h.currentParser]
    rfl
  change_line {p s} h hvalue := by
    refine ⟨{ s with currentParser := some .headers }, ?_, rfl,
      (congrArg SubParser.derived h.status).trans hvalue, h.headers, h.content⟩
    show changeToNextParser s = _
    rw [changeToNextParser, h.currentParser]
  change_headers {p s} h hheaders :=
    change_headers_accepted hm h.currentParser h.status
      ((congrArg SubParser.derived h.headers).trans hheaders) h.content
  change_body {p s} h hbody := by
    show ReadAs tags product m status s.changeToNextParser.1
    rw [changeToNextParser, h.currentParser]
    exact ⟨⟨h.status, h.headers, h.cacheControl, h.hsts, h.noSniff, h.contentType⟩, rfl,
      (congrArg (fun q => q.derived.outStream.bytes) h.content).trans hbody⟩

/-- The writes that bring a response that is accepted. -/
theorem readAs_receive (hm : Acceptable tags product m maxPostDataSize status)
    (h64 : maxPostDataSize < 2 ^ 64) (hlines : m.lines.length + 2 ≤ 4096) {more : List UInt8}
    {ws : List (List UInt8)} (hws : ∀ w ∈ ws, w ≠ [])
    (hroom : ws.length + m.body.length / (64 * 1024) ≤ 256 * 1024)
    (hbytes : ws.flatten = m.bytes ++ more) :
    ReadAs tags product m status ((parserClass tags heap).receive
      (start tags product maxPostDataSize maxHttpChunkSize) ws) := by
  apply (responseReader heap maxHttpChunkSize hm).received hm.toFits h64 hlines ?_ hws hroom hbytes
  exact ⟨rfl, rfl, rfl, rfl⟩

/-- **A well-formed response is read.**  A response that announces the length of its body and keeps
to the limits of the client is read whole, with its status, its headers and its body as they were
sent; however the bytes are cut into writes, and whatever follows them. -/
theorem response_read (heap : ℕ → ℕ → UInt8) (maxPostDataSize : UInt64) (maxHttpChunkSize : UInt32)
    (hm : Acceptable tags product m maxPostDataSize.toNat status)
    (hlines : m.lines.length + 2 ≤ 4096) (more : List UInt8) (ws : List (List UInt8))
    (hws : ∀ w ∈ ws, w ≠ [])
    (hroom : ws.length + m.body.length / (64 * 1024) ≤ 256 * 1024)
    (hbytes : ws.flatten = m.bytes ++ more) :
    ReadAs tags product m status ((parserClass tags heap).receive
      (start tags product maxPostDataSize.toNat maxHttpChunkSize.toNat) ws) :=
  readAs_receive hm maxPostDataSize.toNat_lt hlines hws hroom hbytes

/-- A response with a body of two bytes in two writes, and a byte behind it. -/
theorem response_read_two :
    ReadAs (fun _ => []) (bytesOf "Client/1.0")
      ⟨bytesOf "HTTP/1.1 404 Not Found", [bytesOf "Content-Length: 2"], bytesOf "no"⟩
      ⟨⟨1, 1⟩, 404, bytesOf "Not Found"⟩
      ((parserClass (fun _ => []) (fun _ _ => 0)).receive
        (start (fun _ => []) (bytesOf "Client/1.0") (17825792 : UInt64).toNat
          (16777216 : UInt32).toNat)
        [bytesOf "HTTP/1.1 404 Not Found\r\nContent-Length: 2\r\n\r\nn", bytesOf "o!"]) := by
  refine response_read (fun _ _ => 0) _ _ ?_ (by decide +kernel) (bytesOf "!") _
    (by decide +kernel) (by decide +kernel) (by decide +kernel)
  exact {
    unbroken := by decide +kernel
    lineFits := by decide +kernel
    isLine := List.forall_mem_singleton.mpr ⟨by decide +kernel, by decide +kernel⟩
    linesFit := by decide +kernel
    bodyFits := by decide +kernel
    parsed := by decide +kernel
    announced := by decide +kernel
    length := by decide +kernel }

/-! ## The name of the server -/

/-- What stands under a name stays there, whatever line follows that does not continue one. -/
theorem getOptionByName_parseOptionValue {h : MimeSubHeader} {name l : List UInt8}
    {opt : MimeHeaderOption} (hopt : h.getOptionByName name = some opt)
    (hl : ¬ (l.head? = some 32 ∨ l.head? = some 9)) :
    (h.parseOptionValue tags l).getOptionByName name = some opt := by
  rw [MimeSubHeader.parseOptionValue, if_neg hl]
  cases first [58, 32] l with
  | none => exact hopt
  | some found =>
      simp only [MimeSubHeader.add]
      split
      · exact hopt
      · rw [MimeSubHeader.getOptionByName, List.map_append, List.find?_append]
        rw [MimeSubHeader.getOptionByName] at hopt
        rw [hopt, Option.some_or]

theorem getOptionByName_foldl {h : MimeSubHeader} {name : List UInt8} {opt : MimeHeaderOption}
    {lines : List (List UInt8)} (hopt : h.getOptionByName name = some opt)
    (hlines : ∀ l ∈ lines, ¬ (l.head? = some 32 ∨ l.head? = some 9)) :
    (lines.foldl (MimeSubHeader.parseOptionValue tags) h).getOptionByName name = some opt := by
  induction lines generalizing h with
  | nil => exact hopt
  | cons l lines ih =>
      rw [List.foldl_cons]
      apply ih (getOptionByName_parseOptionValue hopt (hlines l (List.mem_cons_self ..)))
      exact fun k hk => hlines k (List.mem_cons_of_mem l hk)

/-- **The name of a server is not seen.**  Under `Server` the client finds its own product,
whatever the server calls itself, unless a line of the response continues that option. -/
theorem server_unseen (tags : ℕ → List UInt8) (product : List UInt8) {m : MessageText}
    (hlines : ∀ l ∈ m.lines, ¬ (l.head? = some 32 ∨ l.head? = some 9)) :
    ∃ tag, (responseHeaders tags product m).getOptionByName (bytesOf "Server") =
      some (({ origName := bytesOf "Server" } : MimeHeaderOption).parseSubValues tag product) := by
  obtain ⟨tag, htag⟩ := MimeSubHeader.getOptionByName_replace_self (h := {}) tags (by decide)
    (bytesOf "Server") product
  exact ⟨tag, getOptionByName_foldl htag hlines⟩

/-- A server that calls itself `s`. -/
theorem server_unseen_named :
    ∃ tag, (responseHeaders (fun _ => []) (bytesOf "c")
      ⟨bytesOf "HTTP/1.0 200 OK", [bytesOf "Server: s"], []⟩).getOptionByName (bytesOf "Server") =
        some (({ origName := bytesOf "Server" } : MimeHeaderOption).parseSubValues tag
          (bytesOf "c")) :=
  server_unseen _ _ (List.forall_mem_singleton.mpr (by decide))

end HTTPv1ClientParser

end Mantids
