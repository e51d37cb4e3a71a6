/-
# A connection of the HTTP server

`HTTPv1_Server` (`Protocol_HTTP/httpv1_server.cpp`) is a `Parser` with three sub-parsers in a row:
the request line, the headers and the body.  Each time one of them asks for the next,
`changeToNextParser` looks at what was read, and it may answer the request at once.  After an answer
there is no current parser.

* `RequestLine`, `MimeSubHeader`, `Content` — the sub-parsers;
* `HTTPv1Connection` — the server, with a log of its answers and of the calls of
  `procHTTPClientContent`;
* `changeToNextParser` — the three stages;
* `Handlers` — the virtual functions and what else decides the course: parameters;
* `receive` — the writes of a connection, up to one that fails.

A body whose content type asks for another container than the default one goes to a stream that may
throw; this is a parameter as well.  The query variables are not modelled here.
-/
import Mantids.BasicAuthentication
import Mantids.ContentLength
import Mantids.Parser

namespace Mantids

open Occurrence

/-! ## Numbers in base 10 -/

def isdigit (c : UInt8) : Bool := 48 ≤ c && c ≤ 57

/-- `strtoul` and `strtoull` in base 10: white space and a sign are skipped, what follows the digits
is ignored, and a number that does not fit becomes the largest one. -/
def strtoull (s : List UInt8) : ℕ :=
  let s := (s.takeWhile (· ≠ 0)).dropWhile isspace
  let negative := s.head? == some 45
  let s := if s.head? = some 45 ∨ s.head? = some 43 then s.tail else s
  let v := (s.takeWhile isdigit).foldl (fun v c => v * 10 + (c.toNat - 48)) 0
  if 2 ^ 64 ≤ v then 2 ^ 64 - 1 else if negative then (2 ^ 64 - v) % 2 ^ 64 else v

/-! ## The request line -/

/-- `HTTP::Version`; both numbers are of 16 bits. -/
structure HttpVersion where
  majorVersion : ℕ := 1
  minorVersion : ℕ := 0
deriving DecidableEq

/-- `HTTP::Version::parse`. -/
def HttpVersion.parse (version : List UInt8) : HttpVersion :=
  match splitCompress (· = 47) version with
  | [_, versionPart] =>
    match splitCompress (· = 46) versionPart with
    | [majorPart, minorPart] => ⟨strtoull majorPart % 2 ^ 16, strtoull minorPart % 2 ^ 16⟩
    | _ => ⟨1, 0⟩
  | _ => ⟨1, 0⟩

/-- `Request::RequestLine`. -/
structure RequestLine where
  requestMethod : List UInt8 := []
  requestURI : List UInt8 := []
  requestURIParameters : List UInt8 := []
  httpVersion : HttpVersion := {}
deriving DecidableEq

namespace RequestLine

/-- `parseURI`, apart from `decodeURLStr`, which returns what it is given (`decodeURLStr_eq`). -/
def parseURI (r : RequestLine) : RequestLine :=
  if 63 ∈ r.requestURI then
    { r with
      requestURI := r.requestURI.takeWhile (· ≠ 63)
      requestURIParameters := ((r.requestURI.dropWhile (· ≠ 63)).drop 1).takeWhile (· ≠ 0) }
  else r

/-- What `parse()` makes of a request; `none` if it has less than two parts. -/
def ofText (r : RequestLine) (clientRequest : List UInt8) : Option RequestLine :=
  match splitCompress (fun c => c = 9 ∨ c = 32) clientRequest with
  | requestMethod :: requestURI :: rest =>
    some (parseURI { r with
      requestMethod := toUpperBytes requestMethod
      requestURI := requestURI
      httpVersion := HttpVersion.parse (rest.headD (bytesOf "HTTP/1.0")) })
  | _ => none

/-- `parse()`. -/
def parse : Parse RequestLine := fun r st shown =>
  match r.ofText shown.parsedBuffer with
  | none => (r, st, .error)
  | some r => (r, st, .gotoNextSubparser)

/-- What the constructor sets: a line of at most 128 KB. -/
def settings : ParseSettings :=
  { parseMode := .delimiter, parseDelimiter := [13, 10], parseDataTargetSize := 128 * 1024 }

end RequestLine

/-! ## The server -/

/-- What `m_currentParser` points to. -/
inductive RequestParser where
  | requestLine
  | headers
  | content
deriving DecidableEq

/-- What is recorded of a connection: that `answer()` was entered, and that
`procHTTPClientContent` was called, with `m_badAnswer` as it was then. -/
inductive AnswerEvent where
  | answer
  | procHTTPClientContent (badAnswer : Bool)
deriving DecidableEq

/-- The fields of `HTTPv1_Server` that parsing a request uses. -/
structure HTTPv1Connection where
  /-- `m_currentParser`. -/
  currentParser : Option RequestParser := some .requestLine
  requestLine : SubParser RequestLine := SubParser.start RequestLine.settings {}
  headers : SubParser MimeSubHeader := SubParser.start MimeSubHeader.settings {}
  content : SubParser Content
  virtualHost : List UInt8 := []
  virtualPort : ℕ := 80
  basicAuth : BasicAuth := {}
  userAgent : List UInt8 := []
  /-- `serverResponse.status`: its version and its code. -/
  responseVersion : HttpVersion := {}
  responseCode : ℕ := 200
  /-- `m_badAnswer`. -/
  badAnswer : Bool := false
  log : List AnswerEvent := []

/-- The virtual functions of a server, which answer and leave the connection as it is, and what its
surroundings decide. -/
structure Handlers where
  procHTTPClientURI : HTTPv1Connection → Bool
  procHTTPClientHeaders : HTTPv1Connection → Bool
  /-- The code that `procHTTPClientContent` answers with. -/
  procHTTPClientContent : HTTPv1Connection → ℕ
  /-- The answer can be written. -/
  streamed : HTTPv1Connection → Bool
  /-- The container of the body throws at a write. -/
  outStreamThrows : HTTPv1Connection → List UInt8 → Bool
  decodeFromBase64 : List UInt8 → List UInt8

namespace HTTPv1Connection

variable (H : Handlers) (tags : ℕ → List UInt8) (heap : ℕ → ℕ → UInt8)

/-- A new connection, with the limits on the body. -/
def start (maxPostDataSize maxHttpChunkSize : ℕ) : HTTPv1Connection where
  content := Content.fresh maxPostDataSize maxHttpChunkSize

/-- `getOptionAsUINT64("Content-Length")`. -/
def contentLength (s : HTTPv1Connection) : ℕ :=
  strtoull (s.headers.derived.getOptionValueStringByName (bytesOf "Content-Length"))

/-- `prepareServerVersionOnURI`. -/
def prepareServerVersionOnURI (s : HTTPv1Connection) : HTTPv1Connection :=
  if s.requestLine.derived.httpVersion.majorVersion ≠ 1 then
    { s with responseVersion := ⟨1, 0⟩, responseCode := 505, badAnswer := true }
  else
    { s with responseVersion := ⟨1, s.requestLine.derived.httpVersion.minorVersion⟩ }

/-- `prepareServerVersionOnOptions`. -/
def prepareServerVersionOnOptions (s : HTTPv1Connection) : HTTPv1Connection :=
  if 1 ≤ s.requestLine.derived.httpVersion.minorVersion ∧ s.virtualHost = [] then
    { s with responseCode := 400, badAnswer := true }
  else s

/-- `parseHostOptions`. -/
def parseHostOptions (s : HTTPv1Connection) : HTTPv1Connection :=
  let hostVal := s.headers.derived.getOptionValueStringByName (bytesOf "HOST")
  if hostVal = [] then s
  else
    match splitCompress (· = 58) hostVal with
    | [] => { s with virtualPort := 80 }
    | [host] => { s with virtualHost := host, virtualPort := 80 }
    | host :: port :: _ => { s with virtualHost := host, virtualPort := strtoull port % 2 ^ 16 }

/-- `answer()`. -/
def answer (s : HTTPv1Connection) : HTTPv1Connection × Bool :=
  let s := { s with log := s.log ++ [AnswerEvent.answer] }
  let s :=
    if s.badAnswer then s
    else
      { s with
        responseCode := H.procHTTPClientContent s
        log := s.log ++ [AnswerEvent.procHTTPClientContent s.badAnswer] }
  let s := { s with currentParser := none }
  (s, H.streamed s)

/-- `changeToNextParserFromClientRequestLine`. -/
def changeToNextParserFromClientRequestLine (s : HTTPv1Connection) : HTTPv1Connection × Bool :=
  let s := s.prepareServerVersionOnURI
  if s.badAnswer then s.answer H
  else if H.procHTTPClientURI s then ({ s with currentParser := some .headers }, true)
  else ({ s with currentParser := none }, true)

/-- The part of `changeToNextParserFromClientHeaders` that reads the headers. -/
def readHeaders (s : HTTPv1Connection) : HTTPv1Connection :=
  let s := s.parseHostOptions.prepareServerVersionOnOptions
  let s :=
    { s with basicAuth :=
        HTTPv1Server.parseBasicAuth H.decodeFromBase64 s.headers.derived s.basicAuth }
  if s.headers.derived.exist (bytesOf "User-Agent") then
    { s with userAgent := s.headers.derived.getOptionRawStringByName (bytesOf "User-Agent") }
  else s

/-- The part that sets the length of the body; `false` if it is too large. -/
def prepareContent (s : HTTPv1Connection) : HTTPv1Connection × Bool :=
  if s.contentLength = 0 then (s, true)
  else
    let r := Content.setContentLenSize (Content.setTransmitionMode s.content .contentLength)
      s.contentLength
    ({ s with content := r.1 }, r.2)

/-- `changeToNextParserFromClientHeaders`. -/
def changeToNextParserFromClientHeaders (s : HTTPv1Connection) : HTTPv1Connection × Bool :=
  let s := s.readHeaders H
  if s.badAnswer then s.answer H
  else
    match s.prepareContent with
    | (s, false) => answer H { s with badAnswer := true, responseCode := 413 }
    | (s, true) =>
      if H.procHTTPClientHeaders s = false then ({ s with currentParser := none }, true)
      else if s.contentLength = 0 then s.answer H
      else ({ s with currentParser := some .content }, true)

/-- `changeToNextParserFromClientContentData`. -/
def changeToNextParserFromClientContentData (s : HTTPv1Connection) : HTTPv1Connection × Bool :=
  answer H { s with currentParser := none }

/-- `changeToNextParser`. -/
def changeToNextParser (s : HTTPv1Connection) : HTTPv1Connection × Bool :=
  match s.currentParser with
  | some .requestLine => s.changeToNextParserFromClientRequestLine H
  | some .headers => s.changeToNextParserFromClientHeaders H
  | _ => s.changeToNextParserFromClientContentData H

/-- `writeIntoParser` of the current sub-parser. -/
def writeIntoParser (s : HTTPv1Connection) (buf : List UInt8) : HTTPv1Connection × Written :=
  match s.currentParser with
  | none => (s, .bytes 0)
  | some .requestLine =>
    let r := (s.requestLine.setParseStatus .getMoreData).writeIntoParser RequestLine.parse heap buf
    ({ s with requestLine := r.1 }, r.2)
  | some .headers =>
    let r := (s.headers.setParseStatus .getMoreData).writeIntoParser (MimeSubHeader.parse tags) heap
      buf
    ({ s with headers := r.1 }, r.2)
  | some .content =>
    if H.outStreamThrows s buf then (s, .exception)
    else
      let r := Content.writeIntoParser heap (s.content.setParseStatus .getMoreData) buf
      ({ s with content := r.1 }, r.2)

/-- The status of the current sub-parser. -/
def parseStatus (s : HTTPv1Connection) : ParseStatus :=
  match s.currentParser with
  | none => .getMoreData
  | some .requestLine => s.requestLine.parseStatus
  | some .headers => s.headers.parseStatus
  | some .content => s.content.parseStatus

/-- `HTTPv1_Server` as a class derived from `Parser`. -/
def parserClass : ParserClass HTTPv1Connection where
  hasParser s := s.currentParser.isSome
  writeIntoParser := writeIntoParser H tags heap
  parseStatus := parseStatus
  changeToNextParser := changeToNextParser H

/-- The writes of a connection.  One that fails ends it. -/
def receive (s : HTTPv1Connection) : List (List UInt8) → HTTPv1Connection
  | [] => s
  | w :: ws =>
    match (parserClass H tags heap).write s w with
    | (s, some _) => receive s ws
    | (s, none) => s

end HTTPv1Connection

end Mantids
