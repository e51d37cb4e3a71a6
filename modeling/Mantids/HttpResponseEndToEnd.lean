/-
# A response from a server to a client

`HTTPv1_Server::answer` (`Protocol_HTTP/httpv1_server.cpp`) writes a status line, headers and a
body; the client of `HttpResponse` reads them.

* `HTTPv1ServerResponse.answerText` — what the server writes;
* `Deliverable` — what it may answer with;
* `Status.ofText_text`, `contentLength_headersSent`, `getOptionByName_client` — the parts come back;
* `ResponseArrived` — the client has what the server has answered with;
* `response_arrives` — from one end to the other.

The options of the server stand behind the one of the client, so that there is room for one less,
and its `Server` is not seen (`server_unseen`).  A body in chunks of which the size is known is
announced with that size, and not as chunks: such a response is left out.
-/
import Mantids.HttpResponse
import Mantids.SetCookie

namespace Mantids

open Occurrence

/-! ## The server -/

namespace Status

/-- What `streamToUpstream` writes, up to the line break. -/
def text (r : Status) : List UInt8 :=
  r.httpVersion.toText ++ 32 :: (decimal r.statusCode ++ 32 :: r.statusMessage)

end Status

/-- `Headers::Security::XSSProtection`. -/
structure XSSProtection where
  isActivated : Bool := true
  enableBlockingMode : Bool := true
  reportURL : List UInt8 := []

/-- `toString`. -/
def XSSProtection.toText (x : XSSProtection) : List UInt8 :=
  if x.isActivated then
    let r := bytesOf "1"
    let r := if x.enableBlockingMode then r ++ bytesOf "; mode=block" else r
    if x.reportURL = [] then r else r ++ bytesOf "; report=" ++ x.reportURL
  else bytesOf "0"

/-- `XFrameOpts::eOptsValues`. -/
inductive XFrameValue where
  | none
  | deny
  | sameOrigin
  | allowFrom
deriving DecidableEq

/-- `Headers::Security::XFrameOpts`. -/
structure XFrameOpts where
  value : XFrameValue := .deny
  allowFromURL : List UInt8 := []

/-- `toString`. -/
def XFrameOpts.toText (x : XFrameOpts) : List UInt8 :=
  match x.value with
  | .deny => bytesOf "DENY"
  | .allowFrom => bytesOf "ALLOW-FROM " ++ x.allowFromURL
  | .sameOrigin => bytesOf "SAMEORIGIN"
  | .none => []

/-- What `answer` writes of an `HTTPv1_Server`. -/
structure HTTPv1ServerResponse where
  status : Status := {}
  headers : MimeSubHeader := {}
  /-- `serverResponse.content`, in the container of bytes. -/
  content : BChunks := {}
  transmitionMode : TransmitionMode := .connectionClose
  /-- The date, if it is included. -/
  date : Option (List UInt8) := none
  immutableHeaders : Bool := false
  wwwAuthenticateRealm : List UInt8 := []
  /-- `m_cookiesMap`, in its order. -/
  cookies : List (List UInt8 × Cookie) := []
  xssProtection : XSSProtection := {}
  cacheControl : CacheControl := {}
  xFrameOpts : XFrameOpts := {}
  hsts : HSTS := {}
  contentType : List UInt8 := []
  disableNoSniffContentType : Bool := false
  counted : content.Counted

/-- `replace` under a condition. -/
def MimeSubHeader.replaceIf (tags : ℕ → List UInt8) (h : MimeSubHeader) (b : Prop) [Decidable b]
    (optionName optionValue : List UInt8) : MimeSubHeader :=
  if b then h.replace tags optionName optionValue else h

namespace HTTPv1ServerResponse

variable (tags : ℕ → List UInt8) (dateText : ℤ → List UInt8) (r : HTTPv1ServerResponse)

/-- The part of `streamServerHeaders` that announces the body. -/
def announceContent : MimeSubHeader :=
  match getStreamSize r.content with
  | none =>
    let headers := r.headers.replace tags (bytesOf "Connetion") (bytesOf "Close")
    let headers := headers.remove (bytesOf "Content-Length")
    headers.replaceIf tags (r.transmitionMode = .chunks) (bytesOf "Transfer-Encoding")
      (bytesOf "Chunked")
  | some strsize =>
    (r.headers.remove (bytesOf "Connetion")).replace tags (bytesOf "Content-Length")
      (decimal strsize)

/-- The headers that `streamServerHeaders` makes. -/
def headersSent : MimeSubHeader :=
  let headers := (r.announceContent tags).replaceIf tags (r.date.isSome = true) (bytesOf "Date")
    (r.date.getD [])
  if r.immutableHeaders then headers
  else
    let headers := headers.replaceIf tags (r.wwwAuthenticateRealm ≠ []) (bytesOf "WWW-Authenticate")
      (bytesOf "Basic realm=\"" ++ r.wwwAuthenticateRealm ++ bytesOf "\"")
    let headers := headers.remove (bytesOf "Set-Cookie")
    let headers := r.cookies.foldl (fun headers cookie =>
      (headers.add tags (bytesOf "Set-Cookie") (cookie.2.toSetCookieText dateText cookie.1)).1)
      headers
    let headers := headers.replace tags (bytesOf "X-XSS-Protection") r.xssProtection.toText
    let headers := headers.replaceIf tags (r.cacheControl.toText ≠ []) (bytesOf "Cache-Control")
      r.cacheControl.toText
    let headers := headers.replaceIf tags (r.xFrameOpts.value ≠ .none) (bytesOf "X-Frame-Options")
      r.xFrameOpts.toText
    let headers := headers.replaceIf tags (r.hsts.isActivated = true)
      (bytesOf "Strict-Transport-Security") r.hsts.toText
    let headers := headers.replaceIf tags (r.contentType ≠ []) (bytesOf "Content-Type")
      r.contentType
    headers.replaceIf tags (r.contentType ≠ [] ∧ r.disableNoSniffContentType = true)
      (bytesOf "X-Content-Type-Options") (bytesOf "nosniff")

/-- What `Content::streamToUpstream` writes. -/
def contentText : List UInt8 :=
  match r.transmitionMode with
  | .chunks => ContentChunkedTransformer.encode 0 r.content.pieces
  | _ => r.content.pieces.flatten

/-- What `answer` writes. -/
def answerText : List UInt8 :=
  r.status.text ++ [13, 10] ++ (r.headersSent tags dateText).text ++ r.contentText

end HTTPv1ServerResponse

/-! ## The status line -/

namespace Status

variable {r : Status}

/-- A status of which the line can be read: the message is made of words. -/
structure Writable (r : Status) : Prop where
  major : r.httpVersion.majorVersion < 2 ^ 16
  minor : r.httpVersion.minorVersion < 2 ^ 16
  code : r.statusCode < 2 ^ 16
  message : ∃ w ws, (∀ v ∈ w :: ws, IsWord v ∧ v ≠ []) ∧
    [32].intercalate (w :: ws) = r.statusMessage

theorem intercalate_eq_joined (w : List UInt8) (ws : List (List UInt8)) :
    [32].intercalate (w :: ws) = w ++ joined (ws.map fun v => (32, v)) := by
  induction ws generalizing w with
  | nil => simp [joined]
  | cons v ws ih =>
      rw [List.intercalate_cons_cons, ih, List.append_assoc]
      rfl

theorem isWord_decimal (n : ℕ) : IsWord (decimal n) :=
  isWord_of_le fun x hx => UInt8.le_trans (by decide) (le_of_mem_decimal n x hx)

/-- The words of a status line, each behind a blank. -/
theorem text_eq_joined {w : List UInt8} {ws : List (List UInt8)}
    (hmessage : [32].intercalate (w :: ws) = r.statusMessage) :
    r.text = r.httpVersion.toText ++
      joined ((decimal r.statusCode :: w :: ws).map fun v => (32, v)) := by
  rw [text, ← hmessage, intercalate_eq_joined]
  simp [joined]

/-- A status line comes back. -/
theorem ofText_text (h : r.Writable) : ofText r.text = some r := by
  obtain ⟨w, ws, hwords, hmessage⟩ := h.message
  have hall : ∀ v ∈ decimal r.statusCode :: w :: ws, IsWord v ∧ v ≠ [] :=
    List.forall_mem_cons.mpr ⟨⟨isWord_decimal _, decimal_ne_nil _⟩, hwords⟩
  have hsplit : splitCompress (fun c => c = 9 ∨ c = 32) r.text =
      r.httpVersion.toText :: decimal r.statusCode :: w :: ws := by
    have hversion := (HTTPv1ClientRequest.isWord_toText r.httpVersion).not_blank
    rw [text_eq_joined hmessage, splitCompress_join hversion]
    · rw [List.map_map, List.filter_eq_self.mpr]
      · simp
      · intro v hv
        obtain ⟨u, hu, rfl⟩ := List.mem_map.mp hv
        simpa using (hall u hu).2
    · intro u hu
      obtain ⟨v, hv, rfl⟩ := List.mem_map.mp hu
      exact ⟨rfl, (hall v hv).1.not_blank⟩
    · intro u hu
      obtain ⟨v, hv, rfl⟩ := List.mem_map.mp (List.mem_of_getLast? hu)
      exact (hall v hv).2
  have hcode : strtoull (decimal r.statusCode) % 2 ^ 16 = r.statusCode := by
    rw [strtoull_decimal (h.code.trans (by decide)), Nat.mod_eq_of_lt h.code]
  rw [ofText, hsplit]
  simp only [HttpVersion.parse_toText h.major h.minor, hcode, hmessage]

/-- A status line is a line. -/
theorem first_text (h : r.Writable) : first [13, 10] r.text = none := by
  obtain ⟨w, ws, hwords, hmessage⟩ := h.message
  apply first_eq_none_of_not_mem
  intro hmem
  rw [text_eq_joined hmessage, List.mem_append, joined, List.mem_flatMap] at hmem
  rcases hmem with hmem | ⟨u, hu, hmem⟩
  · exact (HTTPv1ClientRequest.isWord_toText _ 13 hmem).2.2.1 rfl
  · obtain ⟨v, hv, rfl⟩ := List.mem_map.mp hu
    rcases List.mem_cons.mp hmem with heq | hmem
    · exact absurd (show (13 : UInt8) = 32 from heq) (by decide)
    · rcases List.mem_cons.mp hv with rfl | hv
      · exact (isWord_decimal _ 13 hmem).2.2.1 rfl
      · exact ((hwords v hv).1 13 hmem).2.2.1 rfl

end Status

/-! ## The headers -/

namespace MimeHeaderOption

instance (opt : MimeHeaderOption) : Decidable opt.Writable :=
  decidable_of_iff (first [58, 32] opt.origName = none ∧
      (opt.origName.head? ≠ some 32 ∧ opt.origName.head? ≠ some 9) ∧
        first [13, 10] opt.toText = none)
    ⟨fun h => ⟨h.1, h.2.1, h.2.2⟩, fun h => ⟨h.name, h.start, h.line⟩⟩

end MimeHeaderOption

namespace MimeSubHeader

open MimeHeaderOption

theorem getOptionByName_replaceIf (tags : ℕ → List UInt8) {optionName varName : List UInt8}
    (hne : toUpperBytes varName ≠ toUpperBytes optionName) (h : MimeSubHeader) (b : Prop)
    [Decidable b] (optionValue : List UInt8) :
    (h.replaceIf tags b optionName optionValue).getOptionByName varName =
      h.getOptionByName varName := by
  unfold replaceIf
  split
  · exact getOptionByName_replace tags hne h optionValue
  · rfl

/-- Several options of one name. -/
theorem getOptionByName_foldl_add {α : Type*} (tags : ℕ → List UInt8)
    {optionName varName : List UInt8} (hne : toUpperBytes varName ≠ toUpperBytes optionName)
    (value : α → List UInt8) (xs : List α) (h : MimeSubHeader) :
    (xs.foldl (fun h x => (h.add tags optionName (value x)).1) h).getOptionByName varName =
      h.getOptionByName varName := by
  induction xs generalizing h with
  | nil => rfl
  | cons x xs ih => rw [List.foldl_cons, ih, getOptionByName_add tags hne]

end MimeSubHeader

namespace HTTPv1ServerResponse

open MimeSubHeader MimeHeaderOption

variable {tags : ℕ → List UInt8} {dateText : ℤ → List UInt8} {r : HTTPv1ServerResponse}

/-- The length of the body is among the options. -/
theorem contentLength_headersSent (hroom : r.headers.headers.length < r.headers.maxOptions)
    {strsize : ℕ} (hsize : getStreamSize r.content = some strsize) :
    ∃ tag, (r.headersSent tags dateText).getOptionByName (bytesOf "Content-Length") =
      some (({ origName := bytesOf "Content-Length" } : MimeHeaderOption).parseSubValues tag
        (decimal strsize)) := by
  have hless : (r.headers.remove (bytesOf "Connetion")).headers.length <
      (r.headers.remove (bytesOf "Connetion")).maxOptions :=
    (length_remove_le r.headers (bytesOf "Connetion")).trans_lt hroom
  obtain ⟨tag, htag⟩ := getOptionByName_replace_self tags hless (bytesOf "Content-Length")
    (decimal strsize)
  have hannounced : (r.announceContent tags).getOptionByName (bytesOf "Content-Length") =
      some (({ origName := bytesOf "Content-Length" } : MimeHeaderOption).parseSubValues tag
        (decimal strsize)) := by
    rw [announceContent, hsize]
    exact htag
  refine ⟨tag, ?_⟩
  rw [← hannounced]
  unfold headersSent
  simp only
  split
  · rw [getOptionByName_replaceIf tags (by decide +kernel)]
  · rw [getOptionByName_replaceIf tags, getOptionByName_replaceIf tags,
      getOptionByName_replaceIf tags, getOptionByName_replaceIf tags,
      getOptionByName_replaceIf tags, getOptionByName_replace tags, getOptionByName_foldl_add tags,
      getOptionByName_remove, getOptionByName_replaceIf tags, getOptionByName_replaceIf tags]
    all_goals decide +kernel

end HTTPv1ServerResponse

namespace HTTPv1ClientParser

open MimeSubHeader MimeHeaderOption

variable (tags : ℕ → List UInt8) (product : List UInt8) {h : MimeSubHeader} {m : MessageText}

/-- The options of a server stand behind the one of the client. -/
theorem headers_responseHeaders (hopts : ∀ o ∈ h.headers, o.2.Writable)
    (hroom : h.headers.length ≤ 31) (hlines : m.lines = h.sorted.map (·.toText)) :
    (responseHeaders tags product m).headers.map (·.2) =
      ({ origName := bytesOf "Server" } : MimeHeaderOption).parseSubValues (tags 0) product ::
        (h.sorted.zipIdx 1).map fun o => o.1.received (tags o.2) := by
  have hwritable : ∀ opt ∈ h.sorted, opt.Writable := by
    intro opt hopt
    obtain ⟨o, ho, rfl⟩ := mem_sorted.mp hopt
    exact hopts o ho
  have hlength : h.sorted.length ≤ 31 := by
    rw [length_sorted]
    exact hroom
  have hread := foldl_parseOptionValue tags (h := initialHeaders tags product) hwritable
    (show 1 + h.sorted.length ≤ 32 by omega)
  rw [responseHeaders, hlines, hread]
  rfl

/-- What the client finds under another name than `Server`. -/
theorem getOptionByName_client (hopts : ∀ o ∈ h.headers, o.2.Writable)
    (hroom : h.headers.length ≤ 31) (hlines : m.lines = h.sorted.map (·.toText))
    {name : List UInt8} (hname : toUpperBytes name ≠ toUpperBytes (bytesOf "Server")) :
    ∃ i, (responseHeaders tags product m).getOptionByName name =
      (h.getOptionByName name).map (received (tags i)) := by
  obtain ⟨i, hi⟩ := find?_received tags (fun opt => opt.getUpperName = toUpperBytes name)
    (fun tag opt => by rw [getUpperName_received]) h.sorted 1
  refine ⟨i, ?_⟩
  rw [getOptionByName, headers_responseHeaders tags product hopts hroom hlines,
    List.find?_cons_of_neg, getOptionByName_eq_sorted, ← hi]
  rw [getUpperName, (origName_parseSubValues ..).1, decide_eq_true_eq]
  exact hname.symm

theorem getOptionRawStringByName_client (hopts : ∀ o ∈ h.headers, o.2.Writable)
    (hroom : h.headers.length ≤ 31) (hlines : m.lines = h.sorted.map (·.toText))
    {name : List UInt8} (hname : toUpperBytes name ≠ toUpperBytes (bytesOf "Server")) :
    (responseHeaders tags product m).getOptionRawStringByName name =
      (h.getOptionRawStringByName name).takeWhile (· ≠ 0) := by
  obtain ⟨i, hi⟩ := getOptionByName_client tags product hopts hroom hlines hname
  rw [getOptionRawStringByName, hi, getOptionRawStringByName]
  cases h.getOptionByName name with
  | none => rfl
  | some opt => exact (origName_parseSubValues ..).2

end HTTPv1ClientParser

/-! ## What is delivered -/

namespace HTTPv1ServerResponse

open MimeSubHeader MimeHeaderOption HTTPv1ClientParser

variable (tags : ℕ → List UInt8) (dateText : ℤ → List UInt8) (r : HTTPv1ServerResponse)

/-- What a server may answer with, and what keeps to the limits of the client. -/
structure Deliverable (maxPostDataSize : ℕ) : Prop where
  status : r.status.Writable
  line : r.status.text.length + 2 ≤ 128
  known : r.content.size ≠ 2 ^ 64 - 1
  unchunked : r.transmitionMode ≠ .chunks
  room : r.headers.headers.length < r.headers.maxOptions
  options : ∀ o ∈ (r.headersSent tags dateText).headers, o.2.Writable
  linesFit : ∀ o ∈ (r.headersSent tags dateText).headers, o.2.toText.length + 2 ≤ 2 * 1024
  count : (r.headersSent tags dateText).headers.length ≤ 31
  body : r.content.size ≤ maxPostDataSize

/-- The response as the client has it before it. -/
def responseText : MessageText where
  line := r.status.text
  lines := (r.headersSent tags dateText).sorted.map (·.toText)
  body := r.content.bytes

/-- The client has what the server has answered with, and reads no more. -/
structure ResponseArrived (product : List UInt8) (s : HTTPv1ClientParser) : Prop where
  currentParser : s.currentParser = none
  status : s.status.derived = r.status
  /-- The option of the client, and every option of the server with its text up to a zero byte. -/
  headers : s.headers.derived.headers.map (fun o => entry o.2) =
    (toUpperBytes (bytesOf "Server"), bytesOf "Server", product) ::
      (r.headersSent tags dateText).entries.map fun e => (e.1, e.2.1, e.2.2.takeWhile (· ≠ 0))
  cacheControl : s.cacheControl = CacheControl.fromText
    (((r.headersSent tags dateText).getOptionRawStringByName
      (bytesOf "Cache-Control")).takeWhile (· ≠ 0))
  hsts : s.hsts = HSTS.fromText (((r.headersSent tags dateText).getOptionRawStringByName
    (bytesOf "Strict-Transport-Security")).takeWhile (· ≠ 0))
  contentType : s.serverContentType = ((r.headersSent tags dateText).getOptionRawStringByName
    (bytesOf "Content-Type")).takeWhile (· ≠ 0)
  body : s.content.derived.outStream.bytes = r.content.bytes

variable {tags dateText r} {maxPostDataSize : ℕ}

/-- What the server writes is the text of a response. -/
theorem answerText_eq (hmode : r.transmitionMode ≠ .chunks) :
    r.answerText tags dateText = (r.responseText tags dateText).bytes := by
  have hcontent : r.contentText = r.content.bytes := by
    rw [← r.counted.flatten_pieces]
    unfold contentText
    cases htransmition : r.transmitionMode with
    | chunks => exact absurd htransmition hmode
    | contentLength => rfl
    | connectionClose => rfl
  rw [answerText, hcontent, text_eq_block, MessageText.bytes, responseText]
  simp only [List.append_assoc, List.cons_append, List.nil_append]

/-- The client has no reason to stop in front of the end of the response. -/
theorem acceptable_responseText (hr : r.Deliverable tags dateText maxPostDataSize)
    (stags : ℕ → List UInt8) (product : List UInt8) :
    Acceptable stags product (r.responseText tags dateText) maxPostDataSize r.status := by
  have hlines : ∀ l ∈ (r.responseText tags dateText).lines,
      ∃ o ∈ (r.headersSent tags dateText).headers, o.2.toText = l := by
    intro l hl
    obtain ⟨opt, hopt, rfl⟩ := List.mem_map.mp hl
    obtain ⟨o, ho, rfl⟩ := mem_sorted.mp hopt
    exact ⟨o, ho, rfl⟩
  obtain ⟨tag, htag⟩ : ∃ tag, (r.headersSent tags dateText).getOptionByName
      (bytesOf "Content-Length") = some (({ origName := bytesOf "Content-Length" } :
        MimeHeaderOption).parseSubValues tag (decimal r.content.size)) :=
    contentLength_headersSent hr.room (if_neg hr.known)
  obtain ⟨i, hi⟩ := getOptionByName_client stags product hr.options hr.count
    (m := r.responseText tags dateText) rfl (show toUpperBytes (bytesOf "Content-Length") ≠
      toUpperBytes (bytesOf "Server") by decide)
  rw [htag, Option.map_some] at hi
  have hplain : IsPlain (({ origName := bytesOf "Content-Length" } :
      MimeHeaderOption).parseSubValues tag (decimal r.content.size)).origValue := by
    rw [(origName_parseSubValues ..).2]
    exact isPlain_decimal _
  exact {
    unbroken := Status.first_text hr.status
    lineFits := hr.line
    isLine := by
      intro l hl
      obtain ⟨o, ho, rfl⟩ := hlines l hl
      exact (hr.options o ho).toText
    linesFit := by
      intro l hl
      obtain ⟨o, ho, rfl⟩ := hlines l hl
      exact hr.linesFit o ho
    bodyFits := by
      show r.content.bytes.length ≤ maxPostDataSize
      rw [← r.counted.size_eq]
      exact hr.body
    parsed := Status.ofText_text hr.status
    announced := by
      rw [exist, hi]
      rfl
    length := by
      rw [getOptionValueStringByName, hi]
      show strtoull (received _ _).value = r.content.bytes.length
      rw [value_received hplain, (origName_parseSubValues ..).2, ← r.counted.size_eq,
        strtoull_decimal (show r.content.size < 2 ^ 64 from r.counted.fits)] }

/-- What the client has read is what the server has answered with. -/
theorem arrived_of_readAs (hr : r.Deliverable tags dateText maxPostDataSize)
    {stags : ℕ → List UInt8} {product : List UInt8} {s : HTTPv1ClientParser}
    (h : ReadAs stags product (r.responseText tags dateText) r.status s) :
    r.ResponseArrived tags dateText product s := by
  have hraw {name : List UInt8} (hname : toUpperBytes name ≠ toUpperBytes (bytesOf "Server")) :=
    getOptionRawStringByName_client stags product hr.options hr.count
      (m := r.responseText tags dateText) rfl hname
  have hheaders := headers_responseHeaders stags product hr.options hr.count
    (m := r.responseText tags dateText) rfl
  refine ⟨h.currentParser, h.status, ?_, ?_, ?_, ?_, h.body⟩
  · rw [h.headers, ← Function.comp_def entry, ← List.map_map, hheaders, List.map_cons, List.map_map,
      MimeSubHeader.entries, List.map_map]
    congr 1
    · rw [entry, getUpperName, (origName_parseSubValues ..).1, (origName_parseSubValues ..).2]
    -- the tags do not show in the entries
    · conv_rhs => rw [← List.zipIdx_map_fst 1 (r.headersSent tags dateText).sorted, List.map_map]
      apply List.map_congr_left
      intro o ho
      exact entry_received_cut o.1 (stags o.2)
  · rw [h.cacheControl, hraw (by decide)]
  · rw [h.hsts, hraw (by decide)]
  · rw [h.contentType, hraw (by decide)]

end HTTPv1ServerResponse

open HTTPv1ServerResponse HTTPv1ClientParser

/-- **A response arrives.**  What a server answers with is a status, headers within the limits and a
body of which the size is known; what it writes comes to a client, cut into writes in any way.  Then
the client ends with the status, the headers, the policies, the content type and the body of the
server. -/
theorem response_arrives (stags : ℕ → List UInt8) (product : List UInt8) (heap : ℕ → ℕ → UInt8)
    (maxPostDataSize : UInt64) (maxHttpChunkSize : UInt32) {tags : ℕ → List UInt8}
    {dateText : ℤ → List UInt8} {r : HTTPv1ServerResponse}
    (hr : r.Deliverable tags dateText maxPostDataSize.toNat) (ws : List (List UInt8))
    (hws : ∀ w ∈ ws, w ≠ []) (hroom : ws.length + r.content.size / (64 * 1024) ≤ 256 * 1024)
    (hbytes : ws.flatten = r.answerText tags dateText) :
    r.ResponseArrived tags dateText product ((parserClass stags heap).receive
      (start stags product maxPostDataSize.toNat maxHttpChunkSize.toNat) ws) := by
  have hlines : (r.responseText tags dateText).lines.length + 2 ≤ 4096 := by
    have hle := hr.count
    rw [responseText, List.length_map, MimeSubHeader.length_sorted]
    omega
  have hcount : ws.length + (r.responseText tags dateText).body.length / (64 * 1024) ≤
      256 * 1024 := by
    rw [responseText, ← r.counted.size_eq]
    exact hroom
  have hwhole : ws.flatten = (r.responseText tags dateText).bytes ++ [] := by
    rw [List.append_nil, hbytes, answerText_eq hr.unchunked]
  exact arrived_of_readAs hr (readAs_receive (acceptable_responseText hr stags product)
    maxPostDataSize.toNat_lt hlines hws hcount hwhole)

/-- A page with a policy. -/
def pageOfTwo : HTTPv1ServerResponse where
  status := ⟨⟨1, 0⟩, 200, bytesOf "OK"⟩
  content := chunkOf (bytesOf "hi")
  cacheControl := { optionNoStore := true }
  contentType := bytesOf "text/plain"
  counted := ⟨by decide, by decide, by decide⟩

theorem deliverable_pageOfTwo :
    pageOfTwo.Deliverable (fun _ => []) (fun _ => []) (17825792 : UInt64).toNat where
  status := ⟨by decide +kernel, by decide +kernel, by decide +kernel, bytesOf "OK", [],
    by decide +kernel, by decide +kernel⟩
  line := by decide +kernel
  known := by decide +kernel
  unchunked := by decide +kernel
  room := by decide +kernel
  options := by decide +kernel
  linesFit := by decide +kernel
  count := by decide +kernel
  body := by decide +kernel

/-- The page in two writes. -/
theorem response_arrives_page :
    pageOfTwo.ResponseArrived (fun _ => []) (fun _ => []) (bytesOf "Client/1.0")
      ((parserClass (fun _ => []) (fun _ _ => 0)).receive
        (start (fun _ => []) (bytesOf "Client/1.0") (17825792 : UInt64).toNat
          (16777216 : UInt32).toNat)
        [(pageOfTwo.answerText (fun _ => []) (fun _ => [])).take 20,
          (pageOfTwo.answerText (fun _ => []) (fun _ => [])).drop 20]) := by
  refine response_arrives _ _ _ _ _ deliverable_pageOfTwo _ ?_ (by decide) ?_
  · decide +kernel
  · simp

end Mantids
